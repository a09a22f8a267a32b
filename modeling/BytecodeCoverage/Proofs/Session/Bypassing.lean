import BytecodeCoverage.Proofs.Session.Fleet

/-!
# Ways around the markers of a line

A line is counted where its markers stand, and a branch belongs to the line of the marker before
it in the code.  Control may get to the branch without passing that marker, or any other one of
the line.  The positions that are reached like this are known from the code alone: whatever a run
does at another position of the method, it has passed a marker of the line.

**Main definitions.**
* `Body.Leads`: control goes on from one position at another.
* `ScannedMethod.Bypasses`: the positions that are reached around the kept markers of a line.
* `ScannedMethod.Guards`: no branch of the line is among them.

**Results.**
* `ScannedMethod.Bypasses.of_closed`: how to tell that a position is not among them.
* `Machine.Thread.Around.step`: one instruction.
* `Fleet.accounted_events`: the calls of a fleet.
-/

namespace BytecodeCoverage

open Machine

/-- Control goes on from one position at another. -/
def Body.Leads (body : Body) (i j : Nat) : Prop :=
  ∃ insn, body.code[i]? = some insn ∧
    ((insn.fallsThrough = true ∧ j = i + 1) ∨
      ∃ label ∈ insn.targets, body.position? label = some j)

/-- The positions of the kept markers of a line. -/
def Scan.markersOn (scan : Scan) (number : UInt32) : List Nat :=
  (scan.keptMarkers.filter fun marker => marker.line = number).map Marker.index

namespace ScannedMethod

/-- The positions that control gets to from the start of the method without passing a kept marker
of the line. -/
inductive Bypasses (m : ScannedMethod) (number : UInt32) : Nat → Prop
  | start : Bypasses m number 0
  | step {i j : Nat} : Bypasses m number i → i ∉ m.scan.markersOn number → m.body.Leads i j →
      Bypasses m number j

/-- Control does not get to a branch of the line without passing a kept marker of the line. -/
def Guards (m : ScannedMethod) (number : UInt32) : Prop :=
  ∀ kept ∈ m.scan.kept, kept.number = number → ∀ index, kept.branch? = some index →
    ¬ m.Bypasses number index

/-- A kept marker of the line is passed. -/
def Passes (m : ScannedMethod) (number : UInt32) (events : List Event) : Prop :=
  ∃ i ∈ m.scan.markersOn number, ⟨m.index, i, .passed number⟩ ∈ events

/-- What is done in the method is done around the markers of the line, unless one is passed. -/
def Accounted (m : ScannedMethod) (number : UInt32) (events : List Event) : Prop :=
  m.Passes number events ∨
    ∀ e ∈ events, e.isDone = true → e.method = m.index → m.Bypasses number e.index

variable {m : ScannedMethod} {number : UInt32}

/-- Whatever holds at the start and is kept where control goes on, markers excepted, holds of all
positions around the markers. -/
theorem Bypasses.of_closed {S : Nat → Prop} (hstart : S 0)
    (hclosed : ∀ i j, S i → i ∉ m.scan.markersOn number → m.body.Leads i j → S j) {i : Nat}
    (h : m.Bypasses number i) : S i := by
  induction h with
  | start => exact hstart
  | step _ hmarker hleads ih => exact hclosed _ _ ih hmarker hleads

/-- If the method starts with a kept marker of the line, there is no way around the markers. -/
theorem Bypasses.eq_zero (hzero : 0 ∈ m.scan.markersOn number) {i : Nat}
    (h : m.Bypasses number i) : i = 0 := by
  refine h.of_closed (S := fun i => i = 0) rfl ?_
  rintro _ j rfl hmarker
  exact absurd hzero hmarker

/-- At the position of a kept marker there is a marker of its line. -/
theorem Of.code_of_mem_markersOn {methods : List Method} {place : Nat} (h : m.Of methods place)
    {i : Nat} (hi : i ∈ m.scan.markersOn number) : m.body.code[i]? = some (.line number) := by
  obtain ⟨marker, hmarker, rfl⟩ := List.mem_map.1 hi
  obtain ⟨hkept, hline⟩ := List.mem_filter.1 hmarker
  obtain rfl : marker.line = number := of_decide_eq_true hline
  exact h.sited.marker (marker.index, marker.line)
    (List.mem_map.2 ⟨marker, (List.mem_filter.1 hkept).1, rfl⟩)

theorem Passes.mono {a b : List Event} (h : m.Passes number a) (hsub : a ⊆ b) :
    m.Passes number b := by
  obtain ⟨i, hi, hmem⟩ := h
  exact ⟨i, hi, hsub hmem⟩

theorem Accounted.nil : m.Accounted number [] :=
  .inr (by simp)

theorem Accounted.append {a b : List Event} (ha : m.Accounted number a)
    (hb : m.Accounted number b) : m.Accounted number (a ++ b) := by
  rcases ha with ha | ha
  · exact .inl (ha.mono (List.subset_append_left a b))
  · rcases hb with hb | hb
    · exact .inl (hb.mono (List.subset_append_right a b))
    · exact .inr (List.forall_mem_append.2 ⟨ha, hb⟩)

end ScannedMethod

namespace Machine

variable {cls : ClassFile} {m : ScannedMethod} {number : UInt32} {place : Nat}

/-! ## One instruction -/

/-- A frame of the method at the place has got around the markers of the line so far. -/
def Frame.Around (m : ScannedMethod) (number : UInt32) (place : Nat) (f : Frame) : Prop :=
  place = m.index → f.body = m.body ∧ m.Bypasses number f.pos

/-- The frames of the method have got around the markers of the line so far. -/
def Thread.Around (m : ScannedMethod) (number : UInt32) (places : List Nat) (t : Thread) : Prop :=
  List.Forall₂ (Frame.Around m number) places (t.frame :: t.callers)

/-- Control goes on in a frame that is at no marker. -/
theorem Frame.Around.moved {f g : Frame} (h : f.Around m number place)
    (hmarker : ¬ (place = m.index ∧ f.pos ∈ m.scan.markersOn number)) (hbody : g.body = f.body)
    (hleads : f.body.Leads f.pos g.pos) : g.Around m number place := by
  intro hplace
  obtain ⟨hsame, hbypasses⟩ := h hplace
  constructor
  · exact hbody.trans hsame
  · exact hbypasses.step (fun hpos => hmarker ⟨hplace, hpos⟩) (hsame ▸ hleads)

theorem Frame.Around.pushAny {f : Frame} (h : f.Around m number place) (result : Option Value) :
    (f.pushAny result).Around m number place := by
  cases result with
  | none => exact h
  | some v => exact h

/-- A method starts around the markers. -/
theorem Frame.around_enter (hm : m.Of cls.methods m.index) {name descriptor : String}
    (hplace : cls.place? name descriptor = some place) {body : Body}
    (hbody : (cls.method? name descriptor).bind Method.body = some body) (args : List Value) :
    (Frame.enter body args).Around m number place := by
  rintro rfl
  obtain ⟨method, hmethod, hfound, -, -⟩ := ClassFile.exists_of_place? hplace
  obtain ⟨method', hmethod', hbody'⟩ := hm.method
  obtain rfl := Option.some.inj (hmethod.symm.trans hmethod')
  rw [hfound, Option.bind_some, hbody'] at hbody
  cases hbody
  exact ⟨rfl, .start⟩

/-- A call goes on in the called method. -/
theorem Thread.around_call (hm : m.Of cls.methods m.index) {t : Thread} {w : World}
    (hw : w.Quiet cls) {f : Frame} (hcaller : f.next.Around m number place) {rest : List Nat}
    (hcallers : List.Forall₂ (Frame.Around m number) rest t.callers) {name descriptor : String}
    {args : List Value} {after : Thread}
    (h : t.resume w (.call f name descriptor args) = .running after) :
    ∃ callee, w.cls.place? name descriptor = some callee ∧
      after.Around m number (callee :: place :: rest) := by
  simp only [resume] at h
  rcases hw.code name descriptor with ⟨body, hbody, hcode⟩ | hcode
  · rw [hcode] at h
    cases h
    cases hplace : cls.place? name descriptor with
    | none =>
        rw [ClassFile.method?_eq_none hplace] at hbody
        cases hbody
    | some callee =>
        refine ⟨callee, hw.cls ▸ hplace, .cons ?_ (.cons hcaller hcallers)⟩
        exact Frame.around_enter hm hplace hbody args
  · rw [hcode] at h
    cases h

/-- A method returns to the one that waits for it. -/
theorem Thread.around_leave {t : Thread} {w : World} {rest : List Nat}
    (hcallers : List.Forall₂ (Frame.Around m number) rest t.callers) {result : Option Value}
    {after : Thread} (h : t.resume w (.leave result) = .running after) :
    after.Around m number rest := by
  simp only [resume] at h
  cases hall : t.callers with
  | nil =>
      rw [hall] at h
      cases h
  | cons f callers =>
      rw [hall] at h hcallers
      cases h
      obtain ⟨first, others, hfirst, hothers, rfl⟩ := List.forall₂_cons_right_iff.1 hcallers
      exact .cons (hfirst.pushAny result) hothers

/-- An instruction passes a marker of the line, or everything has got around the markers after it
as well. -/
theorem Thread.Around.step (hcls : cls.Admissible) (hm : m.Of cls.methods m.index) {t : Thread}
    (hquiet : t.Quiet cls) {places : List Nat} (h : t.Around m number places)
    {insn : Instruction} (hinsn : t.frame.current? = some insn) {after : Thread}
    (hstep : t.step insn = .running after) :
    m.Passes number (t.observe insn places).1 ∨ after.Around m number (t.observe insn places).2 := by
  obtain ⟨place, rest, hframe, hcallers, rfl⟩ := List.forall₂_cons_right_iff.1 h
  by_cases hmarker : place = m.index ∧ t.frame.pos ∈ m.scan.markersOn number
  · obtain ⟨rfl, hpos⟩ := hmarker
    have hcode := hm.code_of_mem_markersOn hpos
    rw [← (hframe rfl).1] at hcode
    obtain rfl := Option.some.inj (hinsn.symm.trans hcode)
    exact .inl ⟨t.frame.pos, hpos, List.mem_singleton_self _⟩
  · right
    cases hexecute : insn.execute t.frame t.world with
    | error fault =>
        simp only [Thread.step, hexecute] at hstep
        cases hstep
    | ok r =>
        obtain ⟨outcome, w⟩ := r
        obtain ⟨houtcome, hworld, -⟩ := hquiet.execute hcls hinsn hexecute
        have hfits := Instruction.execute_fits hexecute
        simp only [Thread.step, hexecute] at hstep
        simp only [observe, hexecute]
        cases houtcome with
        | @next f _ hf =>
            cases hstep
            refine .cons (hframe.moved hmarker hf.body ⟨insn, hinsn, .inl ⟨hfits, ?_⟩⟩) hcallers
            exact congrArg (· + 1) hf.pos
        | @jump f _ target hf =>
            have hbody : f.body = t.frame.body := hf.body
            simp only [resume] at hstep
            cases hposition : f.body.position? target with
            | none =>
                rw [hposition] at hstep
                cases hstep
            | some pos =>
                rw [hposition] at hstep
                cases hstep
                exact .cons (hframe.moved hmarker hbody
                  ⟨insn, hinsn, .inr ⟨target, hfits, hbody ▸ hposition⟩⟩) hcallers
        | @call f _ name descriptor args _ hf =>
            have hcaller : f.next.Around m number place := by
              obtain ⟨op, owner, name, descriptor, onInterface, rfl⟩ := hfits
              exact hframe.moved hmarker hf.body
                ⟨_, hinsn, .inl ⟨rfl, congrArg (· + 1) hf.pos⟩⟩
            obtain ⟨callee, hcallee, hafter⟩ :=
              Thread.around_call hm hworld hcaller hcallers hstep
            dsimp only
            rw [hcallee]
            exact hafter
        | @leave result _ => exact Thread.around_leave hcallers hstep

/-! ## Whole runs -/

/-- A run passes a marker of the line, or it is around the markers to its end. -/
theorem Thread.Around.events (hcls : cls.Admissible) (hm : m.Of cls.methods m.index)
    (budget : Nat) {t : Thread} (hquiet : t.Quiet cls) {places : List Nat}
    (h : t.Around m number places) : m.Accounted number (t.events budget places) := by
  induction budget generalizing t places with
  | zero => exact .nil
  | succ budget ih =>
      unfold Thread.events
      cases hinsn : t.frame.current? with
      | none => exact .nil
      | some insn =>
          have hafter := hquiet.step hcls hinsn
          dsimp only
          cases hstep : t.step insn with
          | ended result w => exact .nil
          | running after =>
              rw [hstep] at hafter
              dsimp only
              rcases h.step hcls hm hquiet hinsn hstep with hpasses | hnext
              · exact .inl (hpasses.mono (List.subset_append_left _ _))
              · refine .append (.inr fun e he hdone hmethod => ?_) (ih hafter.1 hnext)
                -- What the instruction does, it does where the innermost frame is.
                obtain ⟨hplace, hindex⟩ := Thread.eq_of_mem_observe he hdone
                obtain ⟨place, rest, hframe, -, rfl⟩ := List.forall₂_cons_right_iff.1 h
                rw [hindex]
                exact (hframe ((Option.some.inj hplace).trans hmethod)).2

theorem Quiet.accounted_callEvents (hcls : cls.Admissible) (hm : m.Of cls.methods m.index)
    {machine : Machine} (h : machine.Quiet cls) (name descriptor : String) {args : List Value}
    (hargs : ∀ v ∈ args, v.Plain) :
    m.Accounted number (machine.callEvents name descriptor args) := by
  unfold callEvents
  rcases World.Quiet.code h name descriptor with ⟨body, hbody, hcode⟩ | hcode
  · rw [hcode, h.cls]
    cases hplace : cls.place? name descriptor with
    | none => exact .nil
    | some place =>
        have hquiet : Thread.Quiet cls { frame := .enter body args, world := machine.world } :=
          ⟨Frame.quiet_enter hbody hargs, by simp, h⟩
        have hentered : ∀ e ∈ [(⟨place, 0, .entered⟩ : Event)], e.isDone = true →
            e.method = m.index → m.Bypasses number e.index := by
          simp [Event.isDone]
        refine .append (.inr hentered) (Thread.Around.events hcls hm machine.budget hquiet ?_)
        exact .cons (Frame.around_enter hm hplace hbody args) .nil
  · rw [hcode]
    exact .nil

/-- A call passes a marker of the line, or it is around the markers to its end. -/
theorem Quiet.accounted_invokeEvents (hcls : cls.Admissible) (hm : m.Of cls.methods m.index)
    {machine : Machine} (h : machine.Quiet cls) (c : Call) :
    m.Accounted number (machine.invokeEvents c) := by
  have hinitialized : ({ machine with initialized := true } : Machine).Quiet cls := h
  have hstarted := (h.startClass hcls).1
  unfold invokeEvents
  refine .append ?_ ?_
  · unfold startEvents
    split
    · exact .nil
    · split
      · exact hinitialized.accounted_callEvents hcls hm _ _ (by simp)
      · exact .nil
  · generalize machine.startClass = started at hstarted
    obtain ⟨result, after⟩ := started
    cases result with
    | error fault => exact .nil
    | ok =>
        refine hstarted.accounted_callEvents hcls hm _ _ fun v hv => ?_
        obtain ⟨n, -, rfl⟩ := List.mem_map.1 hv
        trivial

end Machine

/-- Calls on machines of several classes: those of the class of the method pass a marker of the
line, or they are around the markers to their end. -/
theorem Fleet.accounted_events {ι : Type} [DecidableEq ι] {m : ScannedMethod} {number : UInt32}
    {cls : ι → ClassFile} (hcls : ∀ i, (cls i).Admissible) {name : String}
    (hm : ∀ i, (cls i).name = name → m.Of (cls i).methods m.index) {machine : ι → Machine}
    (h : ∀ i, (machine i).Quiet (cls i)) (calls : List (ι × Call)) :
    m.Accounted number (eventsIn cls name (events machine calls)) := by
  induction calls generalizing machine with
  | nil => exact .nil
  | cons x rest ih =>
      obtain ⟨i, c⟩ := x
      rw [events, eventsIn_append, eventsIn_map]
      refine .append ?_ (ih fun k => ?_)
      · split
        · rename_i hname
          exact (h i).accounted_invokeEvents (hcls i) (hm i hname) c
        · exact .nil
      · by_cases hk : k = i
        · subst hk
          rw [Function.update_self]
          exact ((h k).invoke (hcls k) c).1
        · rw [Function.update_of_ne hk]
          exact h k

end BytecodeCoverage
