import BytecodeCoverage.Proofs.Probe.Joining

/-!
# What events do to flags

With tests traced, the probe of a line sets the flag of its slot in the trace of the class, and
nothing else sets one.  The trace is made when a probed method is entered, before there is a flag to
set.  So the flags that are set after some events are those that were set before, and those of lines
that were passed.

**Main definitions.**
* `Tally.Flagged`: a flag of the trace is set.
* `Pairing.flagOf?`: the place of the flag that an event sets.

**Results.**
* `Pairing.Good.trace_note_eq`: what an event other than an entry does to the trace.
* `Pairing.Good.flagged_noteAll`, `Pairing.Good.flagged_of_noted`: the flags after some events.
-/

namespace BytecodeCoverage

/-- A flag of the trace is set.  A trace that has not been made has no flags. -/
def Tally.Flagged (t : Tally) (place : Nat) : Prop :=
  (t.trace.getD [])[place]? = some true

/-! ## Sites of lines -/

/-- Only a marker that is passed has the site of a line. -/
theorem Plan.exists_passed_of_site? {plan : Plan} {index : Nat} {deed : Deed} {number : UInt32}
    (h : plan.site? index deed = some (.line number)) : ∃ line, deed = .passed line := by
  cases deed with
  | passed line => exact ⟨line, rfl⟩
  | entered => cases h
  | taken | notTaken =>
      simp only [site?] at h
      split at h <;> cases h
  | case pos =>
      obtain ⟨_, -, heq⟩ := Option.map_eq_some_iff.1 h
      cases heq
  | otherwise =>
      obtain ⟨_, -, heq⟩ := Option.bind_eq_some_iff.1 h
      split at heq <;> cases heq

/-! ## Flags of events -/

namespace Pairing

/-- The place of the flag that an event sets: that of the slot of a line. -/
def flagOf? (p : Pairing) (e : Event) : Option Nat :=
  match e.deed with
  | .passed _ => (p.slotOf? e).map Probe.place
  | _ => none

variable {p : Pairing} {e : Event} {place : Nat}

theorem flagOf?_eq_some :
    p.flagOf? e = some place ↔
      (∃ number, e.deed = .passed number) ∧ (p.slotOf? e).map Probe.place = some place := by
  unfold flagOf?
  cases e.deed <;> simp

theorem flagOf?_eq_none (h : ∀ number, e.deed ≠ .passed number) : p.flagOf? e = none := by
  refine Option.eq_none_iff_forall_ne_some.2 fun place hplace => ?_
  obtain ⟨⟨number, hnumber⟩, -⟩ := flagOf?_eq_some.1 hplace
  exact h number hnumber

namespace Good

variable (hp : p.Good)

include hp

/-- An event that is counted happens in a method that has probes, in a slot of the class. -/
theorem exists_of_slotOf? {slot : Nat} (h : p.slotOf? e = some slot) :
    slot < p.slots ∧ ∃ s, p.sheets e.method = some s ∧ s.probed = true := by
  obtain ⟨s, hs, hslot⟩ := Option.bind_eq_some_iff.1 h
  obtain ⟨site, hsite, hslot⟩ := Option.bind_eq_some_iff.1 hslot
  have hgood := hp.sheet _ s hs
  exact ⟨hgood.slot site slot hslot, s, hs, hgood.probed_of_site? hsite⟩

/-- A flag belongs to a slot of the class. -/
theorem flagOf?_lt (h : p.flagOf? e = some place) : place < p.slots := by
  obtain ⟨slot, hslot, rfl⟩ := Option.map_eq_some_iff.1 (flagOf?_eq_some.1 h).2
  exact Nat.lt_of_le_of_lt (Probe.place_le slot) (hp.exists_of_slotOf? hslot).1

/-- A flag is set in a method that asks for the trace. -/
theorem traced_of_flagOf? (htraced : p.style.traced.isSome = true)
    (h : p.flagOf? e = some place) : p.Traced e.method := by
  obtain ⟨slot, hslot, -⟩ := Option.map_eq_some_iff.1 (flagOf?_eq_some.1 h).2
  exact ⟨htraced, (hp.exists_of_slotOf? hslot).2⟩

/-- What an event other than an entry does to the trace. -/
theorem trace_note_eq (htraced : p.style.traced.isSome = true) (hdeed : e.deed ≠ .entered)
    (t : Tally) :
    (p.note t e).trace =
      match p.flagOf? e with
      | some place => t.trace.map fun mask => mask.set place true
      | none => t.trace := by
  cases hs : p.sheets e.method with
  | none =>
      have hflag : p.flagOf? e = none := by
        unfold flagOf? slotOf?
        rw [hs]
        split <;> rfl
      simp only [note, hs, hflag]
  | some s =>
      have hstyle : s.weave.style.traced.isSome = true := by rw [hp.style _ s hs, htraced]
      rw [note_of_sheet hs hdeed]
      by_cases hline : ∃ number, e.deed = .passed number
      · obtain ⟨number, hnumber⟩ := hline
        simp only [flagOf?, slotOf?, hs, hnumber, Option.bind_some, Plan.site?]
        split
        · rw [s.weave.trace_tallied_line hstyle, Option.bind_some]
          cases s.weave.slots.slot? (.line number) <;> rfl
        · rfl
      · rw [flagOf?_eq_none fun number hnumber => hline ⟨number, hnumber⟩]
        exact s.weave.trace_tallied_of_ne
          (fun _ number hsite => hline (Plan.exists_passed_of_site? hsite)) t

/-- A trace that was made stays, and one is made where a method is entered that asks for it. -/
theorem isSome_trace_note {t : Tally}
    (h : t.trace.isSome ∨ e.deed = .entered ∧ p.Traced e.method) : (p.note t e).trace.isSome := by
  rcases hp.trace_note e with ⟨hplain, hsame⟩ | ⟨-, hmake⟩ | ⟨hdeed, -, slot, hset⟩
  · rw [hsame t]
    exact h.resolve_right fun hentered => hplain hentered.1 hentered.2
  · rw [hmake t]
    rfl
  · rw [hset t, Option.isSome_map]
    exact h.resolve_right fun hentered => hdeed hentered.1

/-- The flags after one event.  A method under way that asks for the trace has made it. -/
theorem flagged_note (htraced : p.style.traced.isSome = true) {t : Tally}
    (hlength : ∀ mask, t.trace = some mask → mask.length = p.slots)
    (hmade : e.deed ≠ .entered → p.Traced e.method → t.trace.isSome) :
    (p.note t e).Flagged place ↔ t.Flagged place ∨ p.flagOf? e = some place := by
  by_cases hdeed : e.deed = .entered
  · rw [flagOf?_eq_none (by simp [hdeed])]
    simp only [reduceCtorEq, or_false]
    rcases hp.trace_note e with ⟨-, hsame⟩ | ⟨-, hmake⟩ | ⟨hne, -⟩
    · rw [Tally.Flagged, hsame t, Tally.Flagged]
    · rw [Tally.Flagged, hmake t, Tally.Flagged]
      cases t.trace with
      | some mask => rfl
      | none => simp [List.getElem?_replicate]
    · exact absurd hdeed hne
  · rw [Tally.Flagged, hp.trace_note_eq htraced hdeed, Tally.Flagged]
    cases hflag : p.flagOf? e with
    | none => simp
    | some i =>
        obtain ⟨mask, hmask⟩ :=
          Option.isSome_iff_exists.1 (hmade hdeed (hp.traced_of_flagOf? htraced hflag))
        have hlt : i < mask.length := hlength mask hmask ▸ hp.flagOf?_lt hflag
        simp only [hmask, Option.map_some, Option.getD_some, List.getElem?_set, hlt, if_true,
          Option.some.injEq]
        by_cases heq : i = place <;> simp [heq]

/-- The flags after some events.  Whatever is done in a method that is not in `known` is done after
the method has been entered. -/
theorem flagged_noteAll (htraced : p.style.traced.isSome = true) {events : List Event} {t : Tally}
    {known : List Nat} (hopened : Event.Opened known events)
    (hmade : ∀ place ∈ known, p.Traced place → t.trace.isSome)
    (hlength : ∀ mask, t.trace = some mask → mask.length = p.slots) :
    (p.noteAll t events).Flagged place ↔
      t.Flagged place ∨ ∃ e ∈ events, p.flagOf? e = some place := by
  induction events generalizing t known with
  | nil => simp [noteAll]
  | cons e rest ih =>
      obtain ⟨hknown, hrest⟩ := hopened
      have hfirst : (p.note t e).Flagged place ↔ t.Flagged place ∨ p.flagOf? e = some place :=
        hp.flagged_note htraced hlength fun hdeed => hmade _ (hknown.resolve_left hdeed)
      have hstays : ∀ place ∈ e.method :: known, p.Traced place → (p.note t e).trace.isSome := by
        rintro place (_ | ⟨_, hplace⟩) htrace
        · refine hp.isSome_trace_note ?_
          rcases hknown with hentered | hmem
          · exact .inr ⟨hentered, htrace⟩
          · exact .inl (hmade _ hmem htrace)
        · exact hp.isSome_trace_note (.inl (hmade place hplace htrace))
      have hrest := ih hrest hstays (hp.length_trace_note e hlength)
      rw [List.exists_mem_cons_iff, ← or_assoc, ← hfirst]
      exact hrest

/-- The flags of a class once events have been noted. -/
theorem flagged_of_noted (htraced : p.style.traced.isSome = true) {r r₁ : Registry}
    (hregular : r.Regular) (hslots : r.slotCount? p.cls.name = some p.slots) {events : List Event}
    (hopened : Event.Opened [] events) (hnoted : p.Noted r events r₁) :
    (r₁.tally p.cls.name).Flagged place ↔
      (r.tally p.cls.name).Flagged place ∨ ∃ e ∈ events, p.flagOf? e = some place := by
  rw [hnoted.tally]
  refine hp.flagged_noteAll htraced hopened (List.forall_mem_nil _) fun mask hmask => ?_
  have hlength := hregular.traced p.cls.name mask hmask
  rw [hslots, Option.some.injEq] at hlength
  exact hlength.symm

end Good

end Pairing

end BytecodeCoverage
