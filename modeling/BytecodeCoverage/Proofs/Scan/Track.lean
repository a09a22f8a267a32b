import BytecodeCoverage.Proofs.Scan.Order

/-!
# The markers along a pass

Two of the patterns retract markers.  One retracts a marker as soon as it turns out to cover no
code.  The other waits for the end of the code: it retracts the last marker if that covers only the
implicit `return` and another line has kept a marker by then.  No other pattern retracts any.

So the markers along a pass are moved by a machine of its own, which knows the marker that has
covered no code so far and the one that may stand for the closing brace.

**Main definitions.**
* `Track`: the markers and the two patterns that retract them.
* `Track.retractOpen`, `Track.retractClosing`: what the two patterns do at the end.

**Results.**
* `Track.run_passFrom`: the pass moves the markers like the machine.
* `Track.markers_finishAll`: what the end of the pass makes of them.
-/

namespace BytecodeCoverage

open Noise

namespace Instruction

/-- Labels and `nop`. -/
def isFiller : Instruction → Bool
  | .label _ | .simple .nop => true
  | _ => false

def isLabel : Instruction → Bool
  | .label _ => true
  | _ => false

end Instruction

/-! ## The two patterns -/

namespace Noise

namespace TryFinally

variable (state : State) {insn : Instruction} (ledger : Ledger)

theorem step_line (number : UInt32) :
    step state (.line number) ledger = (openHere ledger, finish state ledger) := by
  cases state <;> rfl

theorem step_filler (h : insn.isFiller = true) : step state insn ledger = (state, .nothing) := by
  unfold Instruction.isFiller at h
  split at h
  · cases state <;> rfl
  · cases state <;> rfl
  · cases h

theorem step_other (hline : insn.isLine = false) (hfiller : insn.isFiller = false) :
    step state insn ledger = (.idle, .nothing) := by
  unfold step
  split
  · cases hline
  · cases hline
  · cases hfiller
  · cases hfiller
  · rfl

end TryFinally

namespace ClosingLine

variable (state : State) {insn : Instruction} (ledger : Ledger)

theorem step_label (placed : Label) :
    step state (.label placed) ledger = (state, .nothing) := by
  cases state <;> rfl

theorem step_other (hline : insn.isLine = false) (hlabel : insn.isLabel = false)
    (hreturn : insn ≠ .simple .returnVoid) : step state insn ledger = (.idle, .nothing) := by
  unfold step
  split
  · cases hline
  · cases hlabel
  · cases hlabel
  · exact absurd rfl hreturn
  · rfl

end ClosingLine

end Noise

/-! ## The machine -/

/-- The markers registered so far, and the states of the patterns that retract them. -/
structure Track where
  markers : List Marker
  opening : TryFinally.State
  closing : ClosingLine.State

namespace Track

/-- A marker that has covered no code is retracted. -/
def retractOpen : TryFinally.State → List Marker → List Marker
  | .opened id, markers => markers.modify id.pos Marker.retract
  | .idle, markers => markers

/-- One instruction further. -/
def step (index : Nat) (insn : Instruction) (t : Track) : Track :=
  match insn with
  | .line number =>
      { markers := retractOpen t.opening (t.markers ++ [{ index, line := number }])
        opening := .opened ⟨t.markers.length⟩
        closing := .marked ⟨t.markers.length⟩ }
  | .label _ => t
  | .simple .nop => { t with closing := .idle }
  | .simple .returnVoid =>
      { t with
        opening := .idle
        closing :=
          match t.closing with
          | .marked id => .returned id
          | _ => .idle }
  | _ => { t with opening := .idle, closing := .idle }

/-- The machine over the instructions from `index` on. -/
def run (index : Nat) : List Instruction → Track → Track
  | [], t => t
  | insn :: rest, t => run (index + 1) rest (t.step index insn)

/-- The machine in the midst of a pass. -/
def of (states : Filter.States) (ledger : Ledger) : Track where
  markers := ledger.markers
  opening := states .tryFinally
  closing := states .closingLine

/-- How the machine tells instructions apart. -/
inductive Kind : Instruction → Prop
  | line (number : UInt32) : Kind (.line number)
  | label (placed : Label) : Kind (.label placed)
  | nop : Kind (.simple .nop)
  | leave : Kind (.simple .returnVoid)
  | other {insn : Instruction} : insn.isLine = false → insn.isFiller = false →
      insn.isLabel = false → insn ≠ .simple .returnVoid → Kind insn

theorem kind (insn : Instruction) : Kind insn := by
  cases insn with
  | line number => exact .line number
  | label placed => exact .label placed
  | simple op =>
      by_cases hnop : op = .nop
      · exact hnop ▸ .nop
      · by_cases hleave : op = .returnVoid
        · exact hleave ▸ .leave
        · refine .other rfl ?_ rfl fun h => hleave (Instruction.simple.inj h)
          unfold Instruction.isFiller
          split
          · cases ‹Instruction.simple op = .label _›
          · exact absurd (Instruction.simple.inj ‹_›) hnop
          · rfl
  | _ => exact .other rfl rfl rfl nofun

theorem step_other {insn : Instruction} (hline : insn.isLine = false)
    (hfiller : insn.isFiller = false) (hreturn : insn ≠ .simple .returnVoid) (index : Nat)
    (t : Track) : t.step index insn = { t with opening := .idle, closing := .idle } := by
  unfold step
  split
  · cases hline
  · cases hfiller
  · cases hfiller
  · exact absurd rfl hreturn
  · rfl

end Track

/-! ## The pass -/

namespace Enumeration

variable (e : Enumeration) (index : Nat)

theorem markers_observe {insn : Instruction} (h : insn.isLine = false) (ledger : Ledger) :
    (e.observe index insn ledger).markers = ledger.markers := by
  have hcount (ledger : Ledger) : ledger.countInstruction.markers = ledger.markers := by
    unfold Ledger.countInstruction
    split <;> rfl
  have hjump (ledger : Ledger) : (ledger.registerJump index).markers = ledger.markers := by
    unfold Ledger.registerJump
    split <;> rfl
  have hswitch (keys : List Int32) (ledger : Ledger) :
      (ledger.registerSwitch index keys).markers = ledger.markers := by
    unfold Ledger.registerSwitch
    split <;> rfl
  cases insn with
  | line number => cases h
  | label placed => rfl
  | jump op target =>
      simp only [observe, register]
      split
      · rw [hjump, hcount]
        rfl
      · exact hcount _
  | tableSwitch low high otherwise targets | lookupSwitch otherwise keys targets =>
      simp only [observe, register, Instruction.switchKeys?]
      split
      · rw [hswitch, hcount]
        rfl
      · exact hcount _
  | _ => exact hcount _

theorem lineHere_observe (number : UInt32) (ledger : Ledger) :
    (e.observe index (.line number) ledger).lineHere = some ⟨ledger.markers.length⟩ := by
  simp [observe, register, Ledger.registerLine, Ledger.advance, Ledger.lineHere, Ledger.lastLine,
    Ledger.lastOf, Ledger.marker?]

end Enumeration

theorem Ledger.markers_perform {atSwitch : Bool} {actions : List Action}
    (h : ∀ action ∈ actions, action.KeepsLines atSwitch) (ledger : Ledger) :
    (ledger.perform actions).markers = ledger.markers := by
  induction actions generalizing ledger with
  | nil => rfl
  | cons action rest ih =>
      rw [List.forall_mem_cons] at h
      exact (ih h.2 _).trans (h.1.markers_apply ledger)

theorem Action.markers_apply_congr {atSwitch : Bool} {action : Action} (h : action.Suits atSwitch)
    {ledger ledger' : Ledger} (hmarkers : ledger.markers = ledger'.markers) :
    (action.apply ledger).1.markers = (action.apply ledger').1.markers := by
  cases action with
  | nothing => exact hmarkers
  | line id => simp only [apply, Ledger.removeLine_fst, hmarkers]
  | jump id => simpa only [apply, Ledger.removeJump_fst] using hmarkers
  | switch id => simpa only [apply, Ledger.removeSwitch_fst] using hmarkers
  | switchDefault id => simpa only [apply, Ledger.removeSwitchDefault_fst] using hmarkers
  | _ => exact h.elim

theorem Noise.TryFinally.markers_finish (state : State) (ledger : Ledger) :
    ((finish state ledger).apply ledger).1.markers = Track.retractOpen state ledger.markers := by
  cases state with
  | idle => rfl
  | opened id => simp only [finish, Action.apply, ledger.removeLine_fst, Track.retractOpen]

namespace Track

/-- The filters that apply, the two that retract markers in their places. -/
theorem exists_applicable (scope : Scope) :
    ∃ before after, Filter.applicable Filter.standard scope =
        before ++ .tryFinally :: .closingLine :: after ∧
      (∀ filter ∈ before, filter ≠ .tryFinally ∧ filter ≠ .closingLine) ∧
      ∀ filter ∈ after, filter ≠ .tryFinally ∧ filter ≠ .closingLine := by
  have hothers : ∀ filter ∈ Filter.standard.take 9 ++ Filter.standard.drop 11,
      filter ≠ .tryFinally ∧ filter ≠ .closingLine := by
    decide
  rw [List.forall_mem_append] at hothers
  refine ⟨Filter.applicable (Filter.standard.take 9) scope,
    Filter.applicable (Filter.standard.drop 11) scope, ?_,
    fun filter hfilter => hothers.1 filter (List.mem_filter.1 hfilter).1,
    fun filter hfilter => hothers.2 filter (List.mem_filter.1 hfilter).1⟩
  have hstandard : Filter.standard =
      Filter.standard.take 9 ++ .tryFinally :: .closingLine :: Filter.standard.drop 11 := by
    decide
  rw [hstandard, Filter.applicable, List.filter_append]
  rfl

/-- Along the code the markers are those that `tryFinally` leaves. -/
theorem markers_asked (scope : Scope) (states : Filter.States) (insn : Instruction)
    (ledger : Ledger) :
    (ledger.perform ((Filter.applicable Filter.standard scope).map
        (states.asked insn ledger))).markers =
      ((TryFinally.step (states .tryFinally) insn ledger).2.apply ledger).1.markers := by
  obtain ⟨before, after, happlicable, hbefore, hafter⟩ := exists_applicable scope
  have hkeeps (filters : List Filter) (h : ∀ filter ∈ filters, filter ≠ .tryFinally) :
      ∀ action ∈ filters.map (states.asked insn ledger), action.KeepsLines insn.isSwitch := by
    intro action haction
    obtain ⟨filter, hfilter, rfl⟩ := List.mem_map.1 haction
    exact Filter.keepsLines_step (h filter hfilter) (states filter) insn ledger
  rw [happlicable, List.map_append, List.map_cons, Ledger.perform, List.foldl_append,
    List.foldl_cons]
  refine (Ledger.markers_perform (hkeeps (.closingLine :: after) ?_) _).trans
    (Action.markers_apply_congr (TryFinally.suits_step (states .tryFinally) insn ledger)
      (Ledger.markers_perform (hkeeps before fun filter hfilter => (hbefore filter hfilter).1) _))
  rw [List.forall_mem_cons]
  exact ⟨nofun, fun filter hfilter => (hafter filter hfilter).1⟩

/-- The two patterns move the machine by one instruction. -/
theorem step_eq (e : Enumeration) (index : Nat) (insn : Instruction) (opening : TryFinally.State)
    (closing : ClosingLine.State) (ledger : Ledger) :
    step index insn { markers := ledger.markers, opening, closing } =
      { markers := ((TryFinally.step opening insn (e.observe index insn ledger)).2.apply
          (e.observe index insn ledger)).1.markers
        opening := (TryFinally.step opening insn (e.observe index insn ledger)).1
        closing := (ClosingLine.step closing insn (e.observe index insn ledger)).1 } := by
  cases kind insn with
  | line number =>
      have hhere := e.lineHere_observe index number ledger
      rw [TryFinally.step_line, TryFinally.markers_finish, TryFinally.openHere, hhere]
      simp only [ClosingLine.step, hhere]
      rfl
  | label placed =>
      rw [TryFinally.step_filler _ _ rfl, ClosingLine.step_label]
      rfl
  | nop =>
      have hleave : Instruction.simple .nop ≠ .simple .returnVoid :=
        fun h => absurd (Instruction.simple.inj h) (by decide)
      rw [TryFinally.step_filler _ _ rfl, ClosingLine.step_other _ _ rfl rfl hleave]
      exact congrArg (Track.mk · _ _) (e.markers_observe index rfl ledger).symm
  | leave =>
      rw [TryFinally.step_other _ _ rfl rfl, Action.apply, e.markers_observe index rfl]
      cases closing <;> rfl
  | other hline hfiller hlabel hleave =>
      rw [TryFinally.step_other _ _ hline hfiller, ClosingLine.step_other _ _ hline hlabel hleave,
        step_other hline hfiller hleave, Action.apply, e.markers_observe index hline]

/-- The pass moves the machine by one instruction. -/
theorem of_next (scope : Scope) (e : Enumeration) (index : Nat) (insn : Instruction)
    (states : Filter.States) (ledger : Ledger) :
    of (states.next insn (e.observe index insn ledger))
        ((e.observe index insn ledger).perform ((Filter.applicable Filter.standard scope).map
          (states.asked insn (e.observe index insn ledger)))) =
      (of states ledger).step index insn :=
  (congrArg (Track.mk · _ _) (markers_asked scope states insn (e.observe index insn ledger))).trans
    (step_eq e index insn (states .tryFinally) (states .closingLine) ledger).symm

/-- The pass moves the machine over the code. -/
theorem run_passFrom (scope : Scope) (e : Enumeration) (code : List Instruction) (index : Nat)
    {states : Filter.States} (hstates : states.Settled) (ledger : Ledger) :
    ∃ (last : Filter.States) (ledger' : Ledger), last.Settled ∧
      Scan.passFrom e index code
          ((Filter.applicable Filter.standard scope).map states.matcher) ledger =
        ((Filter.applicable Filter.standard scope).map last.matcher, ledger') ∧
      of last ledger' = (of states ledger).run index code := by
  induction code generalizing index states ledger with
  | nil => exact ⟨states, ledger, hstates, rfl, rfl⟩
  | cons insn rest ih =>
      obtain ⟨last, ledger', hlast, hpass, hrun⟩ := ih (index + 1) (hstates.next insn _)
        ((e.observe index insn ledger).perform ((Filter.applicable Filter.standard scope).map
          (states.asked insn (e.observe index insn ledger))))
      refine ⟨last, ledger', hlast, ?_, ?_⟩
      · rw [Scan.passFrom, Filter.States.observeAll_map]
        exact hpass
      · rw [hrun, of_next]
        rfl

/-! ## The end of the pass -/

/-- The marker of the closing brace is retracted if another line keeps a marker. -/
def retractClosing (closing : ClosingLine.State) (markers : List Marker) : List Marker :=
  match closing with
  | .returned id =>
      match markers[id.pos]? with
      | some marker =>
          if ({ markers } : Scan).keptLines.any fun other => other != marker.line then
            markers.modify id.pos Marker.retract
          else markers
      | none => markers
  | _ => markers

theorem markers_finish_closingLine (closing : ClosingLine.State) (ledger : Ledger) :
    ((ClosingLine.finish closing ledger).apply ledger).1.markers =
      retractClosing closing ledger.markers := by
  cases closing with
  | idle | marked => rfl
  | returned id =>
      change _ = match ledger.marker? id with
        | some marker => if ledger.keptLines.any fun other => other != marker.line then _ else _
        | none => _
      rw [ClosingLine.finish]
      cases ledger.marker? id with
      | none => rfl
      | some marker =>
          dsimp only
          split
          · rw [Action.apply, ledger.removeLine_fst]
          · rfl

/-- If there is a closing line, no marker is open. -/
theorem markers_close {opening : TryFinally.State} {closing : ClosingLine.State}
    (h : ∀ id, closing = .returned id → opening = .idle) {ledger ledger' : Ledger}
    (hmarkers : ledger'.markers = retractOpen opening ledger.markers) :
    ((ClosingLine.finish closing ledger).apply ledger').1.markers =
      retractClosing closing (retractOpen opening ledger.markers) := by
  cases closing with
  | idle | marked => exact hmarkers
  | returned id =>
      obtain rfl := h id rfl
      exact (Action.markers_apply_congr (Filter.States.suits_finish_closingLine _ ledger)
        hmarkers).trans (markers_finish_closingLine _ ledger)

/-- At the end first the open marker is retracted, then that of the closing brace. -/
theorem markers_finishAll (scope : Scope) {last : Filter.States} (h : last.Settled)
    (ledger : Ledger) :
    (Matcher.finishAll ((Filter.applicable Filter.standard scope).map last.matcher)
        ledger).markers =
      retractClosing (last .closingLine) (retractOpen (last .tryFinally) ledger.markers) := by
  obtain ⟨before, after, happlicable, hbefore, hafter⟩ := exists_applicable scope
  have hkeeps (filters : List Filter)
      (hothers : ∀ filter ∈ filters, filter ≠ .tryFinally ∧ filter ≠ .closingLine) :
      ∀ action ∈ filters.map (last.askedLast ledger), action.KeepsLines false := by
    intro action haction
    obtain ⟨filter, hfilter, rfl⟩ := List.mem_map.1 haction
    cases filter with
    | tryFinally => exact absurd rfl (hothers _ hfilter).1
    | closingLine => exact absurd rfl (hothers _ hfilter).2
    | _ => trivial
  rw [h.finishAll_map, happlicable, List.map_append, List.map_cons, List.map_cons, Ledger.perform,
    List.foldl_append, List.foldl_cons, List.foldl_cons]
  refine (Ledger.markers_perform (hkeeps after hafter) _).trans (markers_close h ?_)
  exact (Action.markers_apply_congr (last.suits_askedLast ledger .tryFinally)
    (Ledger.markers_perform (hkeeps before hbefore) ledger)).trans
    (TryFinally.markers_finish (last .tryFinally) ledger)

end Track

end BytecodeCoverage
