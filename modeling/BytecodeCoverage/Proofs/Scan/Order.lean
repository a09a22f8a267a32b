import BytecodeCoverage.Proofs.Noise.Independence
import BytecodeCoverage.Session.Instrument

/-!
# The order of filters

A scan depends on which filters take part, but neither on their order nor on how often a filter is
listed. Along the code this is so because the patterns are independent. At the end of the code one
of them, `closingLine`, does look at what others have retracted. What it wants to know is not
changed by its own retraction, and the only other pattern that retracts anything then,
`tryFinally`, has nothing to retract: a marker that covers a `return` is no marker without code
(`Filter.States.Settled`).

**Main definitions.**
* `Filter.States`: the states of all filters, whether they take part or not.

**Results.**
* `Filter.States.observeAll_map`, `Filter.States.finishAll_map`: filters act as if all of them saw
  the same ledger.
* `Options.scan_congr`: the same filters make the same scan.
-/

namespace BytecodeCoverage

open Noise

namespace Filter

/-- The states of all filters, whether they take part or not. -/
abbrev States :=
  (filter : Filter) → filter.pattern.State

namespace States

/-- No match has begun. -/
def idle : States :=
  fun filter => filter.pattern.idle

/-- The matcher of a filter. -/
def matcher (states : States) (filter : Filter) : Matcher :=
  ⟨filter.pattern, states filter⟩

/-- The states one instruction further. -/
def next (states : States) (insn : Instruction) (ledger : Ledger) : States :=
  fun filter => (filter.pattern.step (states filter) insn ledger).1

/-- What a filter asks for at an instruction. -/
def asked (states : States) (insn : Instruction) (ledger : Ledger) (filter : Filter) : Action :=
  (filter.pattern.step (states filter) insn ledger).2

/-- What a filter asks for at the end of the code. -/
def askedLast (states : States) (ledger : Ledger) (filter : Filter) : Action :=
  filter.pattern.finish (states filter) ledger

/-! ## Along the code -/

/-- The filters act as if all of them saw the ledger that the first of them sees. -/
theorem observeAll_map (states : States) (insn : Instruction) (filters : List Filter)
    (ledger : Ledger) :
    Matcher.observeAll insn (filters.map states.matcher) ledger =
      (filters.map (states.next insn ledger).matcher,
        ledger.perform (filters.map (states.asked insn ledger))) := by
  suffices ∀ current : Ledger, current.bare = ledger.bare →
      Matcher.observeAll insn (filters.map states.matcher) current =
        (filters.map (states.next insn ledger).matcher,
          current.perform (filters.map (states.asked insn ledger))) from this ledger rfl
  induction filters with
  | nil => exact fun current _ => rfl
  | cons filter rest ih =>
      intro current hcurrent
      have hstep : filter.pattern.step (states filter) insn current =
          (states.next insn ledger filter, states.asked insn ledger filter) :=
        filter.independent_pattern.step_congr (states filter) insn hcurrent
      have hobserve : (states.matcher filter).observe insn current =
          ((states.next insn ledger).matcher filter,
            ((states.asked insn ledger filter).apply current).1) := by
        simp only [Matcher.observe, Matcher.step, matcher, hstep]
      have hrest := ih ((states.asked insn ledger filter).apply current).1
        ((Action.bare_apply _ current).trans hcurrent)
      simp only [List.map_cons, Matcher.observeAll, hobserve, hrest]
      rfl

/-! ## At the end of the code -/

/-- A marker is not taken for a closing line and for one without code at a time. -/
def Settled (states : States) : Prop :=
  ∀ id, states .closingLine = ClosingLine.State.returned id →
    states .tryFinally = TryFinally.State.idle

theorem settled_idle : idle.Settled := by
  intro id h
  cases h

/-- A marker that covers a `return` is not without code. -/
theorem step_tryFinally_of_returned {closing : ClosingLine.State} {opening : TryFinally.State}
    {insn : Instruction} {ledger : Ledger} {id : MarkerId}
    (h : ∀ id, closing = .returned id → opening = .idle)
    (hreturned : (ClosingLine.step closing insn ledger).1 = .returned id) :
    (TryFinally.step opening insn ledger).1 = .idle := by
  unfold ClosingLine.step at hreturned
  split at hreturned
  · split at hreturned <;> cases hreturned
  · cases hreturned
  · obtain rfl := h _ rfl
    rfl
  · cases opening <;> rfl
  · cases hreturned

theorem Settled.next {states : States} (h : states.Settled) (insn : Instruction)
    (ledger : Ledger) : (states.next insn ledger).Settled :=
  fun _ hreturned => step_tryFinally_of_returned h hreturned

/-- Retracting a marker leaves the other lines the markers they keep. -/
theorem any_keptLines_removeLine {ledger : Ledger} {id : MarkerId} {marker : Marker}
    (hmarker : ledger.marker? id = some marker) :
    ((ledger.removeLine id).1.keptLines.any fun other => other != marker.line) =
      ledger.keptLines.any fun other => other != marker.line := by
  let elsewhere (m : Marker) : Bool := !m.retracted && m.line != marker.line
  have hany (markers : List Marker) :
      ((markers.filter fun m => !m.retracted).map Marker.line).any (fun other => other != marker.line) =
        (markers.map elsewhere).any fun b => b := by
    simp [elsewhere, List.any_map, List.any_filter, Function.comp_def]
  have hview : (ledger.markers.modify id.pos Marker.retract).map elsewhere =
      ledger.markers.map elsewhere := by
    refine map_modify_of_eq fun x hx => ?_
    obtain rfl : marker = x := Option.some.inj (hmarker.symm.trans hx)
    simp [elsewhere, Marker.retract]
  simp only [Scan.keptLines, hany, ledger.removeLine_fst, hview]

theorem marker?_removeLine {ledger : Ledger} {id : MarkerId} {marker : Marker}
    (hmarker : ledger.marker? id = some marker) :
    (ledger.removeLine id).1.marker? id = some marker.retract := by
  change ledger.markers[id.pos]? = _ at hmarker
  simp [Ledger.marker?, ledger.removeLine_fst, hmarker]

/-- The closing line is still asked for once it has been retracted. -/
theorem finish_closingLine_apply (id : MarkerId) (ledger : Ledger) :
    ClosingLine.finish (.returned id)
        ((ClosingLine.finish (.returned id) ledger).apply ledger).1 =
      ClosingLine.finish (.returned id) ledger := by
  cases hmarker : ledger.marker? id with
  | none => simp [ClosingLine.finish, hmarker, Action.apply]
  | some marker =>
      by_cases hother : ledger.keptLines.any (fun other => other != marker.line) = true
      · have hasked : ClosingLine.finish (.returned id) ledger = .line id := by
          simp only [ClosingLine.finish, hmarker, if_pos hother]
        have hagain : (ledger.removeLine id).1.keptLines.any
            (fun other => other != marker.retract.line) = true :=
          (any_keptLines_removeLine hmarker).trans hother
        rw [hasked]
        simp only [Action.apply, ClosingLine.finish, marker?_removeLine hmarker]
        exact if_pos hagain
      · have hasked : ClosingLine.finish (.returned id) ledger = .nothing := by
          simp only [ClosingLine.finish, hmarker, if_neg hother]
        rw [hasked]
        exact hasked

/-- What one filter asks for at the end makes no difference to what another one asks for. -/
theorem Settled.askedLast_apply {states : States} (h : states.Settled) (ledger : Ledger)
    (other filter : Filter) :
    states.askedLast ((states.askedLast ledger other).apply ledger).1 filter =
      states.askedLast ledger filter := by
  cases filter with
  | tryFinally =>
      change TryFinally.finish (states .tryFinally) _ = TryFinally.finish (states .tryFinally) _
      cases states .tryFinally <;> rfl
  | closingLine =>
      change ClosingLine.finish (states .closingLine) _ = ClosingLine.finish (states .closingLine) _
      cases hclosing : (states .closingLine : ClosingLine.State) with
      | idle | marked => rfl
      | returned id =>
          cases other with
          | tryFinally =>
              have hasked : states.askedLast ledger .tryFinally = .nothing := by
                change TryFinally.finish (states .tryFinally) ledger = _
                rw [h id hclosing]
                rfl
              rw [hasked]
              rfl
          | closingLine =>
              have hasked : states.askedLast ledger .closingLine =
                  ClosingLine.finish (.returned id) ledger :=
                congrArg (ClosingLine.finish · ledger) hclosing
              rw [hasked]
              exact finish_closingLine_apply id ledger
          | _ => rfl
  | _ => rfl

/-- The filters act at the end as if all of them saw the ledger that the first of them sees. -/
theorem Settled.finishAll_map {states : States} (h : states.Settled) (filters : List Filter)
    (ledger : Ledger) :
    Matcher.finishAll (filters.map states.matcher) ledger =
      ledger.perform (filters.map (states.askedLast ledger)) := by
  induction filters generalizing ledger with
  | nil => rfl
  | cons filter rest ih =>
      have hasked : states.askedLast ((states.askedLast ledger filter).apply ledger).1 =
          states.askedLast ledger :=
        funext (h.askedLast_apply ledger filter)
      calc
        Matcher.finishAll ((filter :: rest).map states.matcher) ledger =
            Matcher.finishAll (rest.map states.matcher)
              ((states.askedLast ledger filter).apply ledger).1 := rfl
        _ = ledger.perform ((filter :: rest).map (states.askedLast ledger)) := by
            rw [ih, hasked]
            rfl

theorem suits_finish_closingLine (closing : ClosingLine.State) (ledger : Ledger) :
    (ClosingLine.finish closing ledger).Suits false := by
  unfold ClosingLine.finish
  split
  · split
    · split <;> trivial
    · trivial
  · trivial

/-- Only markers are asked for at the end. -/
theorem suits_askedLast (states : States) (ledger : Ledger) (filter : Filter) :
    (states.askedLast ledger filter).Suits false := by
  cases filter with
  | tryFinally =>
      change (TryFinally.finish (states .tryFinally) ledger).Suits false
      cases states .tryFinally <;> trivial
  | closingLine => exact suits_finish_closingLine (states .closingLine) ledger
  | _ => trivial

end States

/-! ## The scan -/

variable {filters filters' : List Filter}

/-- Asking the same filters gives the same requests. -/
theorem mem_map_iff (hmem : ∀ filter, filter ∈ filters ↔ filter ∈ filters')
    (asked : Filter → Action) (action : Action) :
    action ∈ filters.map asked ↔ action ∈ filters'.map asked := by
  simp only [List.mem_map, hmem]

/-- The same filters make the same pass, and they are in the same states after it. -/
theorem passFrom_congr (hmem : ∀ filter, filter ∈ filters ↔ filter ∈ filters') (e : Enumeration)
    (code : List Instruction) (index : Nat) {states : States} (hstates : states.Settled)
    (ledger : Ledger) :
    ∃ (last : States) (ledger' : Ledger), last.Settled ∧
      Scan.passFrom e index code (filters.map states.matcher) ledger =
        (filters.map last.matcher, ledger') ∧
      Scan.passFrom e index code (filters'.map states.matcher) ledger =
        (filters'.map last.matcher, ledger') := by
  induction code generalizing index states ledger with
  | nil => exact ⟨states, ledger, hstates, rfl, rfl⟩
  | cons insn rest ih =>
      have hsame : (e.observe index insn ledger).perform
            (filters'.map (states.asked insn (e.observe index insn ledger))) =
          (e.observe index insn ledger).perform
            (filters.map (states.asked insn (e.observe index insn ledger))) := by
        refine (Ledger.perform_congr insn.isSwitch ?_ (mem_map_iff hmem _) _).symm
        intro action haction
        obtain ⟨filter, -, rfl⟩ := List.mem_map.1 haction
        exact filter.independent_pattern.suits_step ..
      simp only [Scan.passFrom, States.observeAll_map, hsame]
      exact ih (index + 1) (hstates.next insn _) _

end Filter

/-- The same filters make the same scan, whatever their order and however often each is listed. -/
theorem Options.scan_congr (options : Options) {filters filters' : List Filter}
    (hmem : ∀ filter, filter ∈ filters ↔ filter ∈ filters') (scope : Scope) (body : Body) :
    options.scan filters scope body = options.scan filters' scope body := by
  have happlicable : ∀ filter, filter ∈ Filter.applicable (if options.filters then filters else [])
        scope ↔ filter ∈ Filter.applicable (if options.filters then filters' else []) scope := by
    intro filter
    cases options.filters <;> simp [Filter.applicable, hmem]
  obtain ⟨last, ledger, hlast, hleft, hright⟩ :=
    Filter.passFrom_congr happlicable (.forMethod options.branches scope) body.code 0
      Filter.States.settled_idle {}
  have hfinish := Ledger.perform_congr false
    (fun action haction => by
      obtain ⟨filter, -, rfl⟩ := List.mem_map.1 haction
      exact last.suits_askedLast ledger filter)
    (Filter.mem_map_iff happlicable (last.askedLast ledger)) ledger
  change Scan.pass _ _ (List.map Filter.States.idle.matcher _) =
    Scan.pass _ _ (List.map Filter.States.idle.matcher _)
  simp only [Scan.pass, hleft, hright, hlast.finishAll_map, hfinish]

/-! ## A method with two generated markers -/

namespace Braces

/-- Line 2 covers only `nop`, and line 3 only the `return`. -/
def body : Body :=
  .ofParts [.line 1, .simple .iconst0, .simple .pop, .line 2, .simple .nop, .line 3,
    .simple .returnVoid] [] 1 0

def method : Method where
  name := "close"
  descriptor := "()V"
  access := ⟨0x9⟩
  body := some body

def cls : ClassFile where
  name := "demo/Braces"
  superName := some "java/lang/Object"
  access := ⟨0x21⟩
  major := 52
  sourceFile := none
  sourceDebug := none
  fields := []
  methods := [method]

/-- The two filters that retract markers. -/
def filters : List Filter :=
  [.closingLine, .tryFinally]

/-- The same filters in another order, one of them twice. -/
def shuffled : List Filter :=
  [.tryFinally, .closingLine, .tryFinally]

theorem mem_filters_iff (filter : Filter) : filter ∈ filters ↔ filter ∈ shuffled := by
  cases filter <;> decide

end Braces

theorem Options.scan_congr_braces :
    (({} : Options).scan Braces.filters ⟨Braces.cls, Braces.method⟩ Braces.body).markers =
      [⟨0, 1, false⟩, ⟨3, 2, true⟩, ⟨5, 3, true⟩] ∧
    ({} : Options).scan Braces.filters ⟨Braces.cls, Braces.method⟩ Braces.body =
      ({} : Options).scan Braces.shuffled ⟨Braces.cls, Braces.method⟩ Braces.body :=
  ⟨by with_unfolding_all rfl, scan_congr {} Braces.mem_filters_iff _ _⟩

end BytecodeCoverage
