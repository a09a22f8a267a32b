import BytecodeCoverage.Proofs.Coverage.Merging
import BytecodeCoverage.Proofs.Probe.Notes

/-!
# Tallies of two runs

What events of two runs make of a new tally, one run after the other, is what both make of it on
their own, put together.  Counters add up as long as they do not start over.  A trace is made when
a probed method is entered, and before that none of its flags is set.

**Main definitions.**
* `Tally.join`: two tallies put together.
* `Pairing.Traced`: methods that ask for the trace of their class.

**Results.**
* `Pairing.Good.noteAll_append_eq_join`: noting the events of two runs.
-/

namespace BytecodeCoverage

namespace Tally

/-- Counters are added, flags are set that are set on either side. -/
def join (t t' : Tally) : Tally where
  counts := zipLongest satAdd t.counts t'.counts
  trace := joinOption (zipLongest or) t.trace t'.trace

/-- A tally of a class that nothing has been counted for. -/
def blank (slots : Nat) : Tally where
  counts := List.replicate slots 0
  trace := none

end Tally

/-! ## Counters -/

/-- Counters of two runs add up. -/
theorem Probe.iterate_bump_count {m n : Nat} (h : m + n < 0x7fffffff) :
    (bump .count)^[n] ((bump .count)^[m] 0) =
      satAdd ((bump .count)^[m] 0) ((bump .count)^[n] 0) := by
  have hm := toNat_bump_iterate .count (show m < 0x7fffffff by omega)
  have hn := toNat_bump_iterate .count (show n < 0x7fffffff by omega)
  have hsum := toNat_bump_iterate .count (show n + m < 0x7fffffff by omega)
  rw [← Function.iterate_add_apply]
  apply UInt32.toNat_inj.1
  rw [toNat_satAdd, hm, hn, hsum]
  simp only [HitMode.told, maxWord]
  omega

/-! ## Flags -/

theorem zipLongest_or_false (mask : List Bool) :
    zipLongest or mask (List.replicate mask.length false) = mask := by
  induction mask with
  | nil => rfl
  | cons flag rest ih =>
      rw [List.length_cons, List.replicate_succ, zipLongest, Bool.or_false, ih]

theorem zipLongest_or_self (mask : List Bool) : zipLongest or mask mask = mask := by
  induction mask with
  | nil => rfl
  | cons flag rest ih => rw [zipLongest, Bool.or_self, ih]

theorem zipLongest_or_set {mask mask' : List Bool} (h : mask.length = mask'.length) (slot : Nat) :
    zipLongest or mask (mask'.set slot true) = (zipLongest or mask mask').set slot true := by
  induction mask generalizing mask' slot with
  | nil =>
      obtain rfl := List.eq_nil_of_length_eq_zero h.symm
      rfl
  | cons flag rest ih =>
      cases mask' with
      | nil => cases h
      | cons flag' rest' =>
          cases slot with
          | zero => simp [zipLongest]
          | succ slot => simp [zipLongest, ih (Nat.succ.inj h)]

namespace Weave

variable (v : Weave)

/-- With tests traced, the probe of a line sets the flag of its slot. -/
theorem trace_tallied_line (htraced : v.style.traced.isSome = true) (number : UInt32) (t : Tally) :
    (v.tallied (some (.line number)) t).trace =
      match v.slots.slot? (.line number) with
      | some slot => t.trace.map fun mask => mask.set (Probe.place slot) true
      | none => t.trace := by
  simp only [tallied]
  cases v.slots.slot? (.line number) with
  | none => rfl
  | some slot => simp only [ProbeStyle.tallied, htraced, if_true, Tally.hit, Tally.mark]

/-- Other probes set no flag. -/
theorem trace_tallied_of_ne {site : Option ProbeSite}
    (h : v.style.traced.isSome = true → ∀ number, site ≠ some (.line number)) (t : Tally) :
    (v.tallied site t).trace = t.trace := by
  cases site with
  | none => rfl
  | some site =>
      simp only [tallied]
      cases v.slots.slot? site with
      | none => rfl
      | some slot =>
          cases site with
          | line number =>
              have htraced : ¬ v.style.traced.isSome = true := fun htraced => h htraced number rfl
              simp only [ProbeStyle.tallied, if_neg htraced, Tally.hit]
          | _ => rfl

/-- A probe leaves the trace alone or sets a flag. -/
theorem trace_tallied (site : Option ProbeSite) :
    (∀ t, (v.tallied site t).trace = t.trace) ∨
    (v.style.traced.isSome ∧ site.isSome ∧ ∃ slot, ∀ t,
      (v.tallied site t).trace = t.trace.map fun mask => mask.set slot true) := by
  by_cases h : v.style.traced.isSome = true ∧ ∃ number, site = some (.line number)
  · obtain ⟨htraced, number, rfl⟩ := h
    have hline := v.trace_tallied_line htraced number
    cases hslot : v.slots.slot? (.line number) with
    | none => exact .inl fun t => by rw [hline, hslot]
    | some slot => exact .inr ⟨htraced, rfl, Probe.place slot, fun t => by rw [hline, hslot]⟩
  · exact .inl (v.trace_tallied_of_ne fun htraced number hsite => h ⟨htraced, number, hsite⟩)

end Weave

namespace Pairing

variable {p : Pairing}

/-- The method asks for the trace of the class when it is entered. -/
def Traced (p : Pairing) (place : Nat) : Prop :=
  p.style.traced.isSome ∧ ∃ s, p.sheets place = some s ∧ s.probed = true

theorem note_of_sheet {e : Event} {s : Sheet} (hs : p.sheets e.method = some s)
    (hdeed : e.deed ≠ .entered) (t : Tally) :
    p.note t e = s.weave.tallied (s.weave.plan.site? e.index e.deed) t := by
  unfold note
  rw [hs]
  cases h : e.deed with
  | entered => exact absurd h hdeed
  | _ => rfl

namespace Good

variable (hp : p.Good)

include hp

/-- An event leaves the trace alone, makes it, or sets a flag of it. -/
theorem trace_note (e : Event) :
    ((e.deed = .entered → ¬ p.Traced e.method) ∧ ∀ t, (p.note t e).trace = t.trace) ∨
    (e.deed = .entered ∧ ∀ t,
      (p.note t e).trace = some (t.trace.getD (List.replicate p.slots false))) ∨
    (e.deed ≠ .entered ∧ p.Traced e.method ∧ ∃ slot, ∀ t,
      (p.note t e).trace = t.trace.map fun mask => mask.set slot true) := by
  cases hs : p.sheets e.method with
  | none =>
      refine .inl ⟨?_, fun t => by simp only [note, hs]⟩
      rintro - ⟨-, s, hs', -⟩
      rw [hs] at hs'
      cases hs'
  | some s =>
      by_cases hdeed : e.deed = .entered
      · have hnote : ∀ t, p.note t e = if s.probed then p.style.entered p.slots t else t := by
          intro t
          simp only [note, hs, hdeed]
        simp only [hnote, ProbeStyle.entered]
        by_cases htraced : p.Traced e.method
        · obtain ⟨hstyle, s', hs', hprobed⟩ := htraced
          obtain rfl : s = s' := Option.some.inj (hs.symm.trans hs')
          exact .inr (.inl ⟨hdeed, fun t => by rw [if_pos hprobed, if_pos hstyle]; rfl⟩)
        · refine .inl ⟨fun _ => htraced, fun t => ?_⟩
          split
          · rename_i hprobed
            rw [if_neg fun hstyle => htraced ⟨hstyle, s, hs, hprobed⟩]
          · rfl
      · simp only [note_of_sheet hs hdeed]
        rcases s.weave.trace_tallied (s.weave.plan.site? e.index e.deed) with hsame |
          ⟨hstyle, hsite, hset⟩
        · exact .inl ⟨fun h => absurd h hdeed, hsame⟩
        · rw [hp.style _ s hs] at hstyle
          obtain ⟨site, hsite⟩ := Option.isSome_iff_exists.1 hsite
          have hprobed := (hp.sheet _ s hs).probed_of_site? hsite
          exact .inr (.inr ⟨hdeed, ⟨hstyle, s, hs, hprobed⟩, hset⟩)

/-- A trace that is as long as there are slots keeps its length. -/
theorem length_trace_note (e : Event) {t : Tally}
    (ht : ∀ mask, t.trace = some mask → mask.length = p.slots) :
    ∀ mask, (p.note t e).trace = some mask → mask.length = p.slots := by
  rcases hp.trace_note e with ⟨-, hsame⟩ | ⟨-, hmake⟩ | ⟨-, -, slot, hset⟩
  · rw [hsame t]
    exact ht
  · rw [hmake t]
    rintro mask ⟨⟩
    cases hmask : t.trace with
    | none => simp
    | some mask => exact ht mask hmask
  · rw [hset t]
    intro mask hmask
    obtain ⟨mask, hold, rfl⟩ := Option.map_eq_some_iff.1 hmask
    rw [List.length_set]
    exact ht mask hold

theorem length_trace_noteAll {events : List Event} {t : Tally}
    (ht : ∀ mask, t.trace = some mask → mask.length = p.slots) :
    ∀ mask, (p.noteAll t events).trace = some mask → mask.length = p.slots := by
  induction events generalizing t with
  | nil => exact ht
  | cons e rest ih => exact ih (hp.length_trace_note e ht)

/-- The trace after both runs.  Whatever is done in a method in `known` is done after it has been
entered in the second run. -/
theorem trace_noteAll_join {events : List Event} {t₁ t t₁₂ : Tally} {known : List Nat}
    (hopened : Event.Opened known events)
    (hmade : ∀ place ∈ known, p.Traced place → t.trace.isSome)
    (h₁ : ∀ mask, t₁.trace = some mask → mask.length = p.slots)
    (ht : ∀ mask, t.trace = some mask → mask.length = p.slots)
    (hjoin : t₁₂.trace = joinOption (zipLongest or) t₁.trace t.trace) :
    (p.noteAll t₁₂ events).trace =
      joinOption (zipLongest or) t₁.trace (p.noteAll t events).trace := by
  induction events generalizing t t₁₂ known with
  | nil => exact hjoin
  | cons e rest ih =>
      obtain ⟨hknown, hrest⟩ := hopened
      have hlength := hp.length_trace_note e ht
      rcases hp.trace_note e with ⟨hplain, hsame⟩ | ⟨hentered, hmake⟩ | ⟨hdeed, htraced, slot, hset⟩
      · refine ih hrest ?_ hlength ?_
        · rw [hsame t]
          rintro place (_ | ⟨_, hplace⟩) htraced
          · rcases hknown with hentered | hmem
            · exact absurd htraced (hplain hentered)
            · exact hmade _ hmem htraced
          · exact hmade place hplace htraced
        · rw [hsame t, hsame t₁₂]
          exact hjoin
      · refine ih hrest ?_ hlength ?_
        · rw [hmake t]
          exact fun _ _ _ => rfl
        · rw [hmake t, hmake t₁₂, hjoin]
          cases hmask₁ : t₁.trace with
          | none => cases t.trace <;> rfl
          | some mask₁ =>
              cases t.trace with
              | some mask => rfl
              | none =>
                  have hfalse := zipLongest_or_false mask₁
                  rw [h₁ mask₁ hmask₁] at hfalse
                  simp only [joinOption, Option.getD_some, Option.getD_none, hfalse]
      · have hsome := hmade _ (hknown.resolve_left hdeed) htraced
        obtain ⟨mask, hmask⟩ := Option.isSome_iff_exists.1 hsome
        refine ih hrest ?_ hlength ?_
        · rw [hset t, Option.isSome_map]
          exact fun _ _ _ => hsome
        · rw [hset t, hset t₁₂, hjoin, hmask]
          cases hmask₁ : t₁.trace with
          | none => rfl
          | some mask₁ =>
              have hsame : mask₁.length = mask.length :=
                (h₁ mask₁ hmask₁).trans (ht mask hmask).symm
              simp only [joinOption, Option.map_some, zipLongest_or_set hsame]

/-- Noting the events of two runs is noting those of each run and putting the tallies together. -/
theorem noteAll_append_eq_join (hmode : p.style.mode = .count) {events₁ events₂ : List Event}
    (hopened : Event.Opened [] events₂)
    (hfew : ∀ place, (events₁ ++ events₂).countP
      (fun e => (p.slotOf? e).map Probe.place = some place) < 0x7fffffff) :
    p.noteAll (.blank p.slots) (events₁ ++ events₂) =
      (p.noteAll (.blank p.slots) events₁).join (p.noteAll (.blank p.slots) events₂) := by
  have hcounts : (p.noteAll (.blank p.slots) (events₁ ++ events₂)).counts =
      zipLongest satAdd (p.noteAll (.blank p.slots) events₁).counts
        (p.noteAll (.blank p.slots) events₂).counts := by
    refine List.ext_getElem? fun place => ?_
    have hplace := hfew place
    rw [List.countP_append] at hplace
    rw [noteAll_append, getElem?_zipLongest, hp.counts_noteAll, hp.counts_noteAll,
      hp.counts_noteAll, hmode]
    simp only [Tally.blank, List.getElem?_replicate]
    split
    · exact congrArg some (Probe.iterate_bump_count hplace)
    · rfl
  have htrace : (p.noteAll (.blank p.slots) (events₁ ++ events₂)).trace =
      joinOption (zipLongest or) (p.noteAll (.blank p.slots) events₁).trace
        (p.noteAll (.blank p.slots) events₂).trace := by
    rw [noteAll_append]
    refine hp.trace_noteAll_join hopened (by simp) (hp.length_trace_noteAll nofun) nofun ?_
    cases (p.noteAll (.blank p.slots) events₁).trace <;> rfl
  exact congrArg₂ Tally.mk hcounts htrace

end Good

end Pairing

end BytecodeCoverage
