import BytecodeCoverage.Proofs.Probe.Pairing

/-!
# Corresponding worlds and frames

What keeps worlds and frames in correspondence, and what happens when a method is entered: the
counterpart fills the field if it is the class initializer, and takes its arrays if it is probed.

**Main definitions.**
* `Pairing.Added`: a moment while something that was added to a method runs.

**Results.**
* `Pairing.Worlds.counted`, `Pairing.Worlds.executed`: worlds after probes and after code.
* `Sheet.linked_of_twins`: frames after an instruction.
* `Pairing.Good.path_entered`: entering a method.
-/

namespace BytecodeCoverage

open Machine

namespace Pairing

variable {p : Pairing} {w w' : World} {places : List Nat} {t t' : Thread}

/-! ## Worlds -/

namespace Worlds

/-- Counting for the class keeps worlds in correspondence. -/
theorem counted (h : p.Worlds w w') {r : Registry}
    (hcounted : Registry.Counted p.cls.name w'.registry r) :
    p.Worlds w { w' with registry := r } where
  cls := h.cls
  cls' := h.cls'
  shared := h.shared
  plain := h.plain
  field := h.field
  made hfield := hcounted.made (h.made hfield)
  regular := hcounted.regular
  slots := (hcounted.slotCount? _).trans h.slots

/-- Code without probes keeps worlds in correspondence. -/
theorem executed (h : p.Worlds w w') {u u' : World} (hw : Machine.Worlds p.key w w' u u') :
    p.Worlds u u' ∧ u'.registry = w'.registry ∧
      u'.statics.get? p.key = w'.statics.get? p.key := by
  have hregistry : u'.registry = w'.registry := by rw [hw.second]
  refine ⟨⟨?_, ?_, hw.shared, hw.plain, hw.own ▸ h.field, ?_, ?_, ?_⟩, hregistry, hw.own⟩
  · rw [hw.first]
    exact h.cls
  · rw [hw.second]
    exact h.cls'
  · rw [hw.own, hregistry]
    exact h.made
  · rw [hregistry]
    exact h.regular
  · rw [hregistry]
    exact h.slots

/-- Worlds are in correspondence with themselves before anything is executed. -/
theorem unexecuted (h : p.Worlds w w') : Machine.Worlds p.key w w' w w' where
  first := rfl
  second := rfl
  own := rfl
  shared := h.shared
  plain := h.plain

/-- Filling the field keeps worlds in correspondence. -/
theorem filled (h : p.Worlds w w') {u' : World} (hfilled : Filled p.cls.name w' u') :
    p.Worlds w u' where
  cls := h.cls
  cls' := hfilled.cls.trans h.cls'
  shared other hother := (hfilled.others other hother).trans (h.shared other hother)
  plain := h.plain
  field := .inr hfilled.field
  made _ := hfilled.made
  regular := hfilled.counted.regular
  slots := (hfilled.counted.slotCount? _).trans h.slots

end Worlds

theorem Ready.counted {p : Pairing} {w' : World} (h : p.Ready w') {r : Registry}
    (hcounted : Registry.Counted p.style.counters.className w'.registry r) :
    p.Ready { w' with registry := r } := fun hstrategy =>
  ⟨(h hstrategy).field, hcounted.made (h hstrategy).made⟩

/-! ## Frames -/

end Pairing

/-- The store of a frame. -/
def Machine.Store.of (f : Frame) (w : World) : Store :=
  ⟨f.stack, f.locals, w⟩

/-- The position does not matter for what a frame holds. -/
theorem Machine.Twins.Frames.moved {k : Twins} {f f' : Frame} (h : k.Frames f f') (i j : Nat) :
    ({ k with pos := i, pos' := j } : Twins).Frames { f with pos := i } { f' with pos := j } :=
  ⟨h.body, rfl, h.body', rfl, h.stack, h.locals, h.count, h.plainStack, h.plainLocals⟩

namespace Sheet

variable {s : Sheet} {f f' : Frame}

theorem linked_of_twins {k : Twins} (hbody : k.body = s.weave.body) (hbody' : k.body' = s.body')
    (hcount : k.count = s.weave.body.maxLocals.toNat) (hextra : k.extra = s.extras)
    (h : k.Frames f f') {i j : Nat} (hat : s.weave.At i j) :
    s.Linked { f with pos := i } { f' with pos := j } := by
  refine ⟨hat, ?_⟩
  have hmoved := h.moved i j
  obtain ⟨body, pos, body', pos', count, extra⟩ := k
  subst hbody hbody' hcount hextra
  exact hmoved

/-- A frame that gets back a result. -/
theorem Linked.pushAny (h : s.Linked f f') {result : Option Value}
    (hplain : ∀ v ∈ result, v.Plain) : s.Linked (f.pushAny result) (f'.pushAny result) := by
  cases result with
  | none => exact h
  | some v => exact ⟨h.at', h.twins.push (hplain v rfl)⟩

end Sheet

/-- A moment while something that was added to a method runs, the operands of the method being at
a height: a probe or what the method begins with, or the method that fills the field for it. -/
def Pairing.Added (p : Pairing) (s : Sheet) (n : Nat) (places : List Nat) (callers : List Frame)
    (x : Moment) : Prop :=
  x.Amid s.body' places callers (s.height n) s.weave.Beside ∨
    p.style.counters.strategy = .field ∧ ∃ f : Frame, f.body = s.body' ∧ f.stack = [] ∧
      x.Amid p.style.counters.accessorBody (p.cls.methods.length :: places) (f :: callers) 2
        fun _ => True

namespace Pairing.Good

variable {p : Pairing} (hp : p.Good)

include hp

/-! ## Entering a method -/

/-- The field is filled before anything else if it is to be filled. -/
theorem path_filled {place : Nat} {s : Sheet} (hsheet : p.sheets place = some s)
    {w w' : World} (hworlds : p.Worlds w w') (hready : s.fills = false → p.Ready w')
    (hfills : s.fills = true → p.style.counters.strategy = .field) {g : Frame}
    (hbody : g.body = s.body') (hpos : g.pos = 0) (hstack : g.stack = []) (places : List Nat)
    (callers : List Frame) :
    ∃ xs u', Path xs ⟨places, { frame := g, callers, world := w' }⟩
        ⟨places,
          { frame := { g with
              pos := (if s.fills then s.weave.style.counters.fill else []).length }
            callers
            world := u' }⟩ ∧
      p.Worlds w u' ∧ p.Ready u' ∧ Registry.Counted p.cls.name w'.registry u'.registry ∧
      u'.registry.tally p.cls.name = w'.registry.tally p.cls.name ∧
      ∀ x ∈ xs, p.Added s 0 places callers x := by
  have hs := hp.sheet place s hsheet
  cases hf : s.fills with
  | false =>
      refine ⟨[], w', ?_, hworlds, hready hf, .refl hworlds.regular, rfl, List.forall_mem_nil _⟩
      obtain ⟨body, pos, stack, locals⟩ := g
      subst hpos
      exact .nil _
  | true =>
      have hstrategy := hfills hf
      have hcode : g.body.code.drop g.pos = p.style.counters.fill ++
          ((if s.probed then s.weave.style.prologue s.weave.body.maxLocals else []) ++
            s.weave.chunks.flatMap fun c => s.weave.emit c.items) := by
        rw [hbody, hpos, List.drop_zero, hs.code, Weave.code, hs.lead, hp.style place s hsheet]
        simp [hf]
      have haccessor : w'.code Entry.accessor p.style.counters.accessorDescriptor =
          .ok p.style.counters.accessorBody := by
        rw [World.code, hworlds.cls', hp.accessor hstrategy]
      have hown := hp.own
      have hfield := hworlds.field
      have hmade := hworlds.made
      rw [key, ← hown] at hfield hmade
      obtain ⟨xs, u', hrun, hfilled, hxs⟩ := Counters.path_fill places callers hcode
        (hown ▸ hp.notOwner) (by rw [hworlds.cls', hp.name', hown]) haccessor
        (hworlds.cls' ▸ hp.accessorPlace hstrategy) hworlds.regular (hown ▸ hworlds.slots) hfield
        hmade
      refine ⟨xs, u', ?_, hworlds.filled (hown ▸ hfilled),
        fun _ => ⟨hfilled.field, hfilled.made⟩, hown ▸ hfilled.counted, hown ▸ hfilled.tally,
        fun x hx => (hxs x hx).imp (fun hhere => ?_) fun hthere => ?_⟩
      · rw [hp.style place s hsheet]
        simpa [hpos] using hrun
      · rw [hbody, hpos, hstack] at hhere
        refine hhere.mono ?_ fun pos hlt => Weave.beside_of_lead ?_
        · rw [Sheet.height, hf]
          exact Nat.le_max_right _ _
        · rw [hs.lead, hf, if_pos rfl, hp.style place s hsheet, List.length_append]
          omega
      · exact ⟨hstrategy, g.next, hbody, hstack, hthere⟩

/-- The arrays are put into their variables if the method is probed. -/
theorem passes_lead {place : Nat} {s : Sheet} (hsheet : p.sheets place = some s)
    {w w' : World} (hworlds : p.Worlds w w') (hready : p.Ready w') {base : List Value}
    (hbase : base.length = s.weave.body.maxLocals.toNat) (stack : List Value) :
    ∃ r, PassesAll (if s.probed then s.weave.style.prologue s.weave.body.maxLocals else [])
        ⟨stack, base ++ List.replicate s.extras.length .null, w'⟩
        ⟨stack, base ++ s.extras, { w' with registry := r }⟩ ∧
      (s.probed = true → p.style.Armed r) ∧ Registry.Counted p.cls.name w'.registry r ∧
      r.tally p.cls.name = p.note (w'.registry.tally p.cls.name) ⟨place, 0, .entered⟩ := by
  have hs := hp.sheet place s hsheet
  have hstyle := hp.style place s hsheet
  cases hprobed : s.probed with
  | false =>
      refine ⟨w'.registry, ?_, nofun, .refl hworlds.regular, ?_⟩
      · simp only [Sheet.extras, hprobed, Bool.false_eq_true, if_false, List.length_nil,
          List.replicate_zero]
        exact .nil _
      · simp [note, hsheet, hprobed]
  | true =>
      have hown := hp.own
      have hextras : s.extras = p.style.extras := by simp [Sheet.extras, hprobed, hstyle]
      obtain ⟨r, hpasses, hcounted, htally, harmed⟩ := p.style.passes_prologue
        (σ := ⟨stack, base ++ List.replicate s.extras.length .null, w'⟩) hp.traced
        hworlds.regular (hown ▸ hworlds.slots) hready
        (by rw [hextras, p.style.length_extras]) hbase hs.room
      refine ⟨r, ?_, fun _ => harmed, hown ▸ hcounted, ?_⟩
      · rw [hstyle, hextras] at *
        exact hpasses
      · rw [hown] at htally
        simp [note, hsheet, hprobed, htally]

/-- What comes of entering a method: the frames are linked, and being entered is counted. -/
theorem path_entered {place : Nat} {s : Sheet} (hsheet : p.sheets place = some s)
    {w w' : World} (hworlds : p.Worlds w w') (hready : s.fills = false → p.Ready w')
    (hfills : s.fills = true → p.style.counters.strategy = .field) {args : List Value}
    (hargs : args.length ≤ s.weave.body.maxLocals.toNat) (hplain : ∀ v ∈ args, v.Plain)
    (places : List Nat) (callers : List Frame) :
    ∃ xs f' u', Path xs ⟨places, { frame := .enter s.body' args, callers, world := w' }⟩
        ⟨places, { frame := f', callers, world := u' }⟩ ∧
      s.Linked (.enter s.weave.body args) f' ∧ p.Worlds w u' ∧ p.Ready u' ∧
      (s.probed = true → p.style.Armed u'.registry) ∧
      p.Noted w'.registry [⟨place, 0, .entered⟩] u'.registry ∧
      ∀ x ∈ xs, p.Added s 0 places callers x := by
  have hs := hp.sheet place s hsheet
  let base := (Frame.enter s.weave.body args).locals
  have hbase : base.length = s.weave.body.maxLocals.toNat := by
    simp only [base, Frame.enter, List.length_append, List.length_replicate]
    omega
  have hlocals : (Frame.enter s.body' args).locals =
      base ++ List.replicate s.extras.length .null := by
    simp only [base, Frame.enter, List.append_assoc, List.replicate_append_replicate]
    rw [hs.maxLocals, Nat.sub_add_comm hargs]
  obtain ⟨xs, w₁, hfill, hworlds₁, hready₁, hcounted₁, htally₁, hxs⟩ :=
    hp.path_filled hsheet hworlds hready hfills (g := .enter s.body' args) rfl rfl rfl places
      callers
  obtain ⟨r, hlead, harmed, hcounted₂, htally₂⟩ :=
    hp.passes_lead hsheet hworlds₁ hready₁ hbase []
  have hcode : s.body'.code.drop
      (if s.fills then s.weave.style.counters.fill else []).length =
        (if s.probed then s.weave.style.prologue s.weave.body.maxLocals else []) ++
          s.weave.chunks.flatMap fun c => s.weave.emit c.items := by
    rw [hs.code, Weave.code, hs.lead, List.append_assoc, List.drop_left]
  obtain ⟨ys, hrest, hys⟩ := hlead.path s.body' _ places callers hcode
  rw [← List.length_append, ← hs.lead] at hrest hys
  rw [← Weave.start_zero, ← hlocals] at hrest
  refine ⟨_, _, _, hfill.append hrest, ⟨.fell fun c hc => Diverted.reached_zero hc, ?_⟩,
    hworlds₁.counted hcounted₂, Ready.counted hready₁ (hp.own ▸ hcounted₂), harmed,
    .entered (hcounted₁.trans hcounted₂) ?_, List.forall_mem_append.2 ⟨hxs, fun y hy => .inl
      ((hys y hy).mono ?_ fun pos hpos => Weave.beside_of_lead hpos.2)⟩⟩
  · refine ⟨rfl, rfl, rfl, rfl, rfl, rfl, hbase, by simp [Frame.enter], fun v hv => ?_⟩
    rcases List.mem_append.1 hv with hv | hv
    · exact hplain v hv
    · rw [(List.mem_replicate.1 hv).2]
      trivial
  · rw [← htally₁]
    exact htally₂
  · have hdepth : 1 ≤ (Probe.depth s.weave.style.mode).toNat := by
      cases s.weave.style.mode <;> decide
    unfold Sheet.height
    cases s.probed with
    | false => exact Nat.zero_le _
    | true =>
        have hpeak := s.weave.style.peak_prologue s.weave.body.maxLocals
        simp only [if_true, List.length_nil]
        omega

end Pairing.Good

end BytecodeCoverage
