import BytecodeCoverage.Proofs.Scan.Requests

/-!
# Retracted switches and dispatch regions

A switch is retracted as a whole if the instruction right before it computes a hash code or reads
the state label.  A hash code opens a dispatch region, in which the jumps after comparisons are
asked for.

**Main definitions.**
* `Filter.opensAt`: the instructions before switches that are retracted.
* `Noise.StringSwitch.run?`: code that stays in a dispatch region.

**Results.**
* `Scan.switch_retracted_iff`: the switches that are retracted.
* `Noise.StringSwitch.asks_of_run?`: the jumps that are asked for in a dispatch region.
-/

namespace BytecodeCoverage

open Noise

/-! ## Switches that are retracted as a whole -/

namespace Noise

variable {insn : Instruction} {ledger : Ledger} {id : SwitchId} {e : Enumeration}
  {seen : List Instruction}

theorem StringSwitch.step_eq_hashed {state : State} :
    (step state insn ledger).1 = .hashed ↔ hashes insn = true := by
  have hswitch : insn.isSwitch = true → hashes insn = false := by
    cases insn <;> simp [Instruction.isSwitch, hashes, Instruction.isCall]
  cases state with
  | idle => grind [step, restart]
  | hashed =>
      cases hhere : ledger.switchHere <;> grind [step, restart]
  | dispatch line current =>
      simp only [step]
      unfold dispatch
      split <;> grind [restart, hashes, Instruction.isCall]

theorem StringSwitch.step_asks_switch {state : State} : (step state insn ledger).2 = .switch id ↔
    state = .hashed ∧ insn.isSwitch = true ∧ ledger.switchHere = some id := by
  cases state with
  | idle => grind [step]
  | hashed =>
      cases hhere : ledger.switchHere <;> cases hswitch : insn.isSwitch <;> grind [step]
  | dispatch line current =>
      simp only [step]
      unfold dispatch
      split <;> grind [Action.jumpHere]

theorem Coroutines.step_eq_labelRead {state : State} :
    (step state insn ledger).1 = .labelRead ↔ readsLabel insn = true := by
  have hread : readsLabel insn = true → insn.isSwitch = false ∧ loadsReference insn = false ∧
      insn.isJumpWith .ifAcmpne = false ∧ insn.isSimple .areturn = false := by
    cases insn <;> simp [readsLabel, Instruction.isSwitch, loadsReference, Instruction.loadIndex?,
      Instruction.isJumpWith, Instruction.isSimple]
  cases hhere : ledger.switchHere <;> cases hjump : ledger.jumpHere <;> cases state <;>
    grind [step, fst_orRestart, restart]

theorem Coroutines.step_asks_switch {state : State} : (step state insn ledger).2 = .switch id ↔
    state = .labelRead ∧ insn.isSwitch = true ∧ ledger.switchHere = some id := by
  cases hhere : ledger.switchHere <;> cases hswitch : insn.isSwitch <;> cases state <;>
    grind [step, snd_orRestart]

end Noise

/-- A pattern that asks for a switch when the operand right before it has put it into a state. -/
theorem Pattern.asks_switch_iff (p : Pattern) {opened : p.State} {opens : Instruction → Bool}
    {e : Enumeration} {seen : List Instruction} {id : SwitchId} (hidle : p.idle ≠ opened)
    (hopens : ∀ state insn ledger, (p.step state insn ledger).1 = opened ↔ opens insn = true)
    (hasks : ∀ state insn ledger, (p.step state insn ledger).2 = .switch id ↔
      state = opened ∧ insn.isSwitch = true ∧ ledger.switchHere = some id) :
    p.askedAfter e seen = .switch id ↔ (e.registered seen).switchHere = some id ∧
      ∃ insn operand earlier, seen = insn :: operand :: earlier ∧ insn.isSwitch = true ∧
        opens operand = true := by
  refine (p.askedAfter_eq_iff (by nofun) hasks).trans ?_
  constructor
  · rintro ⟨insn, _, rfl, hopened, hswitch, hhere⟩
    obtain ⟨operand, earlier, rfl, hoperand⟩ := (p.stateAfter_eq_iff hidle hopens).1 hopened
    exact ⟨hhere, insn, operand, earlier, rfl, hswitch, hoperand⟩
  · rintro ⟨hhere, insn, operand, earlier, rfl, hswitch, hoperand⟩
    have hopened := (p.stateAfter_eq_iff (e := e) hidle hopens).2 ⟨operand, earlier, rfl, hoperand⟩
    exact ⟨insn, _, rfl, hopened, hswitch, hhere⟩

/-- Whether a filter asks for a switch right after an instruction: one that computes a hash code or
reads the state label. -/
def Filter.opensAt : Filter → Instruction → Bool
  | .stringSwitch => StringSwitch.hashes
  | .coroutines => Coroutines.readsLabel
  | _ => fun _ => false

theorem Filter.asks_switch_iff {filter : Filter} {e : Enumeration} {seen : List Instruction}
    {id : SwitchId} : filter.pattern.askedAfter e seen = .switch id ↔
      (e.registered seen).switchHere = some id ∧ ∃ insn operand earlier,
        seen = insn :: operand :: earlier ∧ insn.isSwitch = true ∧
          filter.opensAt operand = true := by
  by_cases hfilter : filter = .stringSwitch ∨ filter = .coroutines
  · rcases hfilter with rfl | rfl
    · exact Noise.stringSwitch.asks_switch_iff (by nofun)
        (fun _ _ _ => StringSwitch.step_eq_hashed) fun _ _ _ => StringSwitch.step_asks_switch
    · exact Noise.coroutines.asks_switch_iff (by nofun)
        (fun _ _ _ => Coroutines.step_eq_labelRead) fun _ _ _ => Coroutines.step_asks_switch
  · refine iff_of_false (fun hasked => hfilter (eq_of_asks_switch hasked)) ?_
    rintro ⟨-, insn, operand, earlier, -, -, hoperand⟩
    cases filter with
    | stringSwitch => exact hfilter (.inl rfl)
    | coroutines => exact hfilter (.inr rfl)
    | _ => cases hoperand

namespace Scan

variable {filters : List Filter} {e : Enumeration} {code pre post : List Instruction}
  {insn : Instruction}

/-- A switch is retracted if the instruction right before it is what some filter looks for. -/
theorem switch_retracted_iff {site : SwitchSite}
    (hsite : site ∈ (withFilters filters e code).switches) (hcode : code = pre ++ insn :: post)
    (hindex : site.index = pre.length) : site.retracted = true ↔
      ∃ filter ∈ filters, ∃ earlier operand, pre = earlier ++ [operand] ∧
        filter.opensAt operand = true := by
  obtain ⟨other, seen, id, hseen, hplace, hhere, hretracted, -⟩ := exists_switch hsite
  obtain ⟨rfl, rfl⟩ := eq_of_suffix_reverse hseen hcode (hplace.symm.trans hindex)
  rw [hretracted]
  refine exists_congr fun filter => and_congr_right fun _ => ?_
  constructor
  · rintro ⟨upTo, -, hupTo, hasked⟩
    obtain ⟨hhere', insn', operand, earlier, rfl, -, hoperand⟩ := Filter.asks_switch_iff.1 hasked
    obtain ⟨-, hpre⟩ := List.cons.inj (Enumeration.eq_of_switchHere hseen hupTo hhere hhere')
    exact ⟨earlier.reverse, operand, by rw [← List.reverse_reverse pre, hpre]; simp, hoperand⟩
  · rintro ⟨earlier, operand, rfl, hoperand⟩
    refine ⟨_, List.suffix_rfl, hseen, Filter.asks_switch_iff.2 ⟨hhere, other, operand,
      earlier.reverse, by simp, ?_, hoperand⟩⟩
    have hshown := e.isSome_switchHere other (earlier ++ [operand]).reverse
    rw [hhere] at hshown
    simp_all

end Scan

/-! ## Dispatch regions -/

namespace Noise.StringSwitch

variable {insn : Instruction} {e : Enumeration} {code seen : List Instruction} {line : UInt32}
  {current next : Step}

/-- Progress after an instruction that stays in the region, and jumps only after a comparison. -/
def advance? (current : Step) : Instruction → Option Step
  | .line _ => none
  | .label _ => some current
  | insn =>
      if insn.isSwitch || hashes insn then none
      else if insn.isConditionalJump then
        if isVerdict insn && current == .compared then some .base else none
      else some (current.next insn)

/-- Progress after some code that does so. -/
def run? (current : Step) (code : List Instruction) : Option Step :=
  code.foldlM advance? current

theorem isConditionalJump_of_isVerdict (h : isVerdict insn = true) :
    insn.isConditionalJump = true := by
  unfold isVerdict at h
  split at h
  · rfl
  · rfl
  · cases h

theorem dispatch_of_advance? (line : UInt32) (h : advance? current insn = some next)
    (ledger : Ledger) :
    (dispatch line current insn ledger).1 = .dispatch line next ∧
      (insn.isConditionalJump = true →
        (dispatch line current insn ledger).2 = Action.jumpHere ledger) ∧
      insn.isLine = false ∧ insn.isSwitch = false := by
  have hverdict : isVerdict insn = true → insn.isConditionalJump = true :=
    isConditionalJump_of_isVerdict
  cases insn <;> grind [advance?, dispatch, Instruction.isLine, Instruction.isSwitch,
    Instruction.isConditionalJump]

theorem after_of_advance? (h : advance? current insn = some next)
    (hseen : stringSwitch.stateAfter e seen = .dispatch line current) :
    stringSwitch.stateAfter e (insn :: seen) = .dispatch line next ∧
      (insn.isConditionalJump = true → stringSwitch.askedAfter e (insn :: seen) =
        Action.jumpHere (e.registered (insn :: seen))) := by
  obtain ⟨hstate, hasked, -⟩ := dispatch_of_advance? line h (e.registered (insn :: seen))
  rw [Pattern.stateAfter, Pattern.askedAfter, hseen]
  exact ⟨hstate, hasked⟩

theorem run?_cons {rest : List Instruction} :
    run? current (insn :: rest) = (advance? current insn).bind (run? · rest) := by
  simp only [run?, List.foldlM_cons]
  rfl

theorem run?_append {rest : List Instruction} :
    run? current (code ++ rest) = (run? current code).bind (run? · rest) := by
  simp only [run?, List.foldlM_append]
  rfl

/-- The state stays in the region along the code. -/
theorem after_of_run? (h : run? current code = some next)
    (hseen : stringSwitch.stateAfter e seen = .dispatch line current) :
    stringSwitch.stateAfter e (code.reverse ++ seen) = .dispatch line next := by
  induction code generalizing current seen with
  | nil =>
      obtain rfl := Option.some.inj h
      exact hseen
  | cons insn rest ih =>
      rw [run?_cons, Option.bind_eq_some_iff] at h
      obtain ⟨between, hinsn, hrest⟩ := h
      rw [List.reverse_cons, List.append_assoc]
      exact ih hrest (after_of_advance? hinsn hseen).1

/-- Each conditional jump of the code is asked for. -/
theorem asks_of_run? {rest : List Instruction} (h : run? current (code ++ insn :: rest) = some next)
    (hjump : insn.isConditionalJump = true)
    (hseen : stringSwitch.stateAfter e seen = .dispatch line current) :
    stringSwitch.askedAfter e (insn :: (code.reverse ++ seen)) =
      Action.jumpHere (e.registered (insn :: (code.reverse ++ seen))) := by
  rw [run?_append, Option.bind_eq_some_iff] at h
  obtain ⟨between, hcode, hrest⟩ := h
  rw [run?_cons, Option.bind_eq_some_iff] at hrest
  obtain ⟨after, hinsn, -⟩ := hrest
  exact (after_of_advance? hinsn (after_of_run? hcode hseen)).2 hjump

/-- The code has neither markers nor switches. -/
theorem forall_of_run? (h : run? current code = some next) :
    ∀ insn ∈ code, insn.isLine = false ∧ insn.isSwitch = false := by
  induction code generalizing current with
  | nil => exact List.forall_mem_nil _
  | cons insn rest ih =>
      rw [run?_cons, Option.bind_eq_some_iff] at h
      obtain ⟨between, hinsn, hrest⟩ := h
      obtain ⟨-, -, hform⟩ := dispatch_of_advance? 0 hinsn {}
      exact List.forall_mem_cons.2 ⟨hform, ih hrest⟩

/-- The switch after the call of `hashCode` opens a region. -/
theorem after_hashed {call switch : Instruction} (hcall : hashes call = true)
    (hswitch : switch.isSwitch = true)
    (hhere : (e.registered (switch :: call :: seen)).switchHere.isSome = true) :
    ∃ line, stringSwitch.stateAfter e (switch :: call :: seen) = .dispatch line .base := by
  obtain ⟨id, hid⟩ := Option.isSome_iff_exists.1 hhere
  have hhashed : stringSwitch.stateAfter e (call :: seen) = .hashed := step_eq_hashed.2 hcall
  refine ⟨(((e.registered (switch :: call :: seen)).switch? id).map SwitchSite.line).getD 0, ?_⟩
  rw [Pattern.stateAfter, hhashed]
  simp only [stringSwitch, step, hswitch, hid]

end Noise.StringSwitch

end BytecodeCoverage
