import BytecodeCoverage.Noise.Filter
import BytecodeCoverage.Proofs.Scan.Retraction

/-!
# Patterns side by side

Patterns run side by side on one ledger, each right after the other, so each sees what the ones
before it have retracted. Along the code this makes no difference: a pattern reads nothing that a
retraction changes, and no two patterns ask for retractions that get in each other's way. In
particular a switch is retracted at the switch itself, and its default only further on.

Along the code only `tryFinally` retracts markers; the others ask for retractions of branches.

**Main definitions.**
* `Pattern.Independent`: a pattern that goes its own way next to others.
* `Action.KeepsLines`: a retraction of a branch, if any.

**Results.**
* `Filter.keepsLines_step`: patterns that retract no markers along the code.
* `Filter.independent_pattern`: all patterns of the library are independent.
-/

namespace BytecodeCoverage

/-- A pattern that goes its own way next to others. -/
structure Pattern.Independent (p : Pattern) : Prop where
  /-- It looks at what is registered, not at what is retracted. -/
  step_bare : ∀ state insn ledger, p.step state insn ledger.bare = p.step state insn ledger
  /-- Its retractions do not get in the way of others. -/
  suits_step : ∀ state insn ledger, (p.step state insn ledger).2.Suits insn.isSwitch

/-- Retractions do not change what an independent pattern does. -/
theorem Pattern.Independent.step_congr {p : Pattern} (hp : p.Independent) (state : p.State)
    (insn : Instruction) {ledger ledger' : Ledger} (h : ledger.bare = ledger'.bare) :
    p.step state insn ledger = p.step state insn ledger' := by
  rw [← hp.step_bare, h, hp.step_bare]

/-- What may be asked for by a pattern that retracts no markers. -/
def Action.KeepsLines (atSwitch : Bool) : Action → Prop
  | .nothing | .jump _ => True
  | .switch _ => atSwitch = true
  | .switchDefault _ => atSwitch = false
  | .line _ | .lastLine | .lastJump | .lastSwitch | .lastSwitchDefault => False

namespace Action.KeepsLines

variable {atSwitch : Bool} {action : Action}

theorem suits (h : action.KeepsLines atSwitch) : action.Suits atSwitch := by
  cases action with
  | nothing | jump id => trivial
  | switch id | switchDefault id => exact h
  | _ => exact h.elim

theorem markers_apply (h : action.KeepsLines atSwitch) (ledger : Ledger) :
    (action.apply ledger).1.markers = ledger.markers := by
  cases action with
  | nothing => rfl
  | jump id => simp only [apply, ledger.removeJump_fst]
  | switch id => simp only [apply, ledger.removeSwitch_fst]
  | switchDefault id => simp only [apply, ledger.removeSwitchDefault_fst]
  | _ => exact h.elim

end Action.KeepsLines

namespace Noise

theorem keepsLines_jumpHere {atSwitch : Bool} (ledger : Ledger) :
    (Action.jumpHere ledger).KeepsLines atSwitch := by
  unfold Action.jumpHere
  split <;> trivial

theorem keepsLines_orRestart {σ : Type} {atSwitch : Bool} (restart : σ) (next : Option σ) :
    (orRestart restart next).2.KeepsLines atSwitch := by
  cases next <;> trivial

theorem keepsLines_ite {σ : Type} {atSwitch : Bool} {c : Prop} [Decidable c] {x y : σ × Action}
    (hx : x.2.KeepsLines atSwitch) (hy : y.2.KeepsLines atSwitch) :
    (if c then x else y).2.KeepsLines atSwitch := by
  split
  · exact hx
  · exact hy

/-! ## Null tests -/

theorem NotNull.keepsLines_step (state : State) (insn : Instruction) (ledger : Ledger) :
    (step state insn ledger).2.KeepsLines insn.isSwitch := by
  cases state with
  | idle | duplicated => exact keepsLines_orRestart ..
  | loaded => exact keepsLines_ite trivial (keepsLines_orRestart ..)
  | tested jump =>
      exact keepsLines_ite trivial (keepsLines_ite trivial (keepsLines_orRestart ..))
  | pushedIndex jump => exact keepsLines_ite trivial (keepsLines_orRestart ..)

theorem notNull_independent : notNull.Independent where
  step_bare state insn ledger := by
    simp only [notNull, NotNull.step, Ledger.jumpHere_bare]
  suits_step state insn ledger := (NotNull.keepsLines_step state insn ledger).suits

theorem CastGuard.keepsLines_step (state : State) (insn : Instruction) (ledger : Ledger) :
    (step state insn ledger).2.KeepsLines insn.isSwitch := by
  cases state with
  | idle | duplicated | tested jump | allocated jump => exact keepsLines_orRestart ..
  | constructing jump => exact keepsLines_ite trivial (keepsLines_orRestart ..)

theorem castGuard_independent : castGuard.Independent where
  step_bare state insn ledger := by
    simp only [castGuard, CastGuard.step, Ledger.jumpHere_bare]
  suits_step state insn ledger := (CastGuard.keepsLines_step state insn ledger).suits

theorem Lateinit.keepsLines_step (state : State) (insn : Instruction) (ledger : Ledger) :
    (step state insn ledger).2.KeepsLines insn.isSwitch := by
  cases state with
  | idle | duplicated | tested jump => exact keepsLines_orRestart ..
  | read | named jump => exact keepsLines_ite trivial (keepsLines_orRestart ..)

theorem lateinit_independent : lateinit.Independent where
  step_bare state insn ledger := by
    simp only [lateinit, Lateinit.step, Ledger.jumpHere_bare]
  suits_step state insn ledger := (Lateinit.keepsLines_step state insn ledger).suits

theorem UnsupportedCall.keepsLines_step (state : State) (insn : Instruction) (ledger : Ledger) :
    (step state insn ledger).2.KeepsLines insn.isSwitch := by
  cases state with
  | idle | loaded | tested jump | allocated jump => exact keepsLines_orRestart ..
  | duplicated jump => exact keepsLines_ite trivial (keepsLines_orRestart ..)

theorem unsupportedCall_independent : unsupportedCall.Independent where
  step_bare state insn ledger := by
    simp only [unsupportedCall, UnsupportedCall.step, Ledger.jumpHere_bare]
  suits_step state insn ledger := (UnsupportedCall.keepsLines_step state insn ledger).suits

theorem TryWithResources.keepsLines_step (state : State) (insn : Instruction) (ledger : Ledger) :
    (step state insn ledger).2.KeepsLines insn.isSwitch := by
  cases state with
  | idle | loaded index | tested index jump => exact keepsLines_orRestart ..
  | reloaded jump => exact keepsLines_ite trivial (keepsLines_orRestart ..)

theorem tryWithResources_independent : tryWithResources.Independent where
  step_bare state insn ledger := by
    simp only [tryWithResources, TryWithResources.step, Ledger.jumpHere_bare]
  suits_step state insn ledger := (TryWithResources.keepsLines_step state insn ledger).suits

/-! ## Conditions -/

theorem BooleanNegation.keepsLines_step (state : State) (insn : Instruction) (ledger : Ledger) :
    (step state insn ledger).2.KeepsLines insn.isSwitch := by
  cases state with
  | idle | jumped | firstConst | skipped | atTarget => exact keepsLines_orRestart ..
  | secondConst jump stop => exact keepsLines_ite trivial (keepsLines_orRestart ..)

theorem booleanNegation_independent : booleanNegation.Independent where
  step_bare state insn ledger := by
    simp only [booleanNegation, BooleanNegation.step, BooleanNegation.restart,
      Ledger.jumpHere_bare]
  suits_step state insn ledger := (BooleanNegation.keepsLines_step state insn ledger).suits

theorem Assertions.keepsLines_step (state : State) (insn : Instruction) (ledger : Ledger) :
    (step state insn ledger).2.KeepsLines insn.isSwitch := by
  cases state with
  | idle | inAssert => trivial
  | flag => exact keepsLines_ite (keepsLines_jumpHere ledger) trivial
  | condJump jump => exact keepsLines_ite trivial trivial

theorem assertions_independent : assertions.Independent where
  step_bare state insn ledger := by
    simp only [assertions, Assertions.step, Assertions.inside, Ledger.jumpHere_bare,
      Action.jumpHere_bare]
  suits_step state insn ledger := (Assertions.keepsLines_step state insn ledger).suits

theorem DefaultArgs.keepsLines_step (state : State) (insn : Instruction) (ledger : Ledger) :
    (step state insn ledger).2.KeepsLines insn.isSwitch := by
  cases state with
  | idle => trivial
  | loaded | bit => exact keepsLines_ite trivial trivial
  | masked => exact keepsLines_ite (keepsLines_jumpHere ledger) trivial

theorem defaultArgs_independent : defaultArgs.Independent where
  step_bare state insn ledger := by
    simp only [defaultArgs, DefaultArgs.step, Action.jumpHere_bare]
  suits_step state insn ledger := (DefaultArgs.keepsLines_step state insn ledger).suits

theorem Coroutines.keepsLines_step (state : State) (insn : Instruction) (ledger : Ledger) :
    (step state insn ledger).2.KeepsLines insn.isSwitch := by
  cases state with
  | idle | result | compared => exact keepsLines_orRestart ..
  | labelRead =>
      simp only [step]
      split
      · assumption
      · exact keepsLines_orRestart ..
  | tested jump => exact keepsLines_ite trivial (keepsLines_ite trivial (keepsLines_orRestart ..))
  | reloaded jump => exact keepsLines_ite trivial (keepsLines_orRestart ..)

theorem coroutines_independent : coroutines.Independent where
  step_bare state insn ledger := by
    simp only [coroutines, Coroutines.step, Ledger.jumpHere_bare, Ledger.switchHere_bare]
  suits_step state insn ledger := (Coroutines.keepsLines_step state insn ledger).suits

/-! ## Switches -/

theorem StringSwitch.keepsLines_step (state : State) (insn : Instruction) (ledger : Ledger) :
    (step state insn ledger).2.KeepsLines insn.isSwitch := by
  cases state with
  | idle => trivial
  | hashed =>
      simp only [step]
      split
      · assumption
      · trivial
  | dispatch line current =>
      simp only [step, dispatch]
      split
      · exact keepsLines_ite trivial trivial
      · trivial
      · exact keepsLines_ite trivial
          (keepsLines_ite trivial (keepsLines_ite (keepsLines_jumpHere ledger) trivial))

theorem stringSwitch_independent : stringSwitch.Independent where
  step_bare state insn ledger := by
    simp only [stringSwitch, StringSwitch.step, StringSwitch.dispatch, Ledger.switchHere_bare,
      Ledger.map_line_switch?_bare, Action.jumpHere_bare]
  suits_step state insn ledger := (StringSwitch.keepsLines_step state insn ledger).suits

/-- Only a switch has a default label. -/
theorem NoBranchMatched.isSwitch_of_defaultOf?_eq_none {insn : Instruction}
    (h : defaultOf? insn = none) : insn.isSwitch = false := by
  cases insn with
  | tableSwitch | lookupSwitch => cases h
  | _ => rfl

theorem NoBranchMatched.keepsLines_step (state : State) (insn : Instruction) (ledger : Ledger) :
    (step state insn ledger).2.KeepsLines insn.isSwitch := by
  unfold step
  split
  · split <;> trivial
  · have hswitch := isSwitch_of_defaultOf?_eq_none ‹_›
    split
    · exact keepsLines_ite trivial trivial
    · trivial
    · trivial
    · exact keepsLines_ite hswitch trivial
    · trivial

theorem noBranchMatched_independent : noBranchMatched.Independent where
  step_bare state insn ledger := by
    simp only [noBranchMatched, NoBranchMatched.step, Ledger.switchHere_bare]
  suits_step state insn ledger := (NoBranchMatched.keepsLines_step state insn ledger).suits

/-! ## Lines -/

theorem TryFinally.suits_step (state : State) (insn : Instruction) (ledger : Ledger) :
    (step state insn ledger).2.Suits insn.isSwitch := by
  unfold step
  split <;> trivial

theorem tryFinally_independent : tryFinally.Independent where
  step_bare state insn ledger := by
    simp only [tryFinally, TryFinally.step, TryFinally.openHere, Ledger.lineHere_bare]
  suits_step := TryFinally.suits_step

theorem ClosingLine.keepsLines_step (state : State) (insn : Instruction) (ledger : Ledger) :
    (step state insn ledger).2.KeepsLines insn.isSwitch := by
  unfold step
  split
  · split <;> trivial
  · trivial
  · trivial
  · trivial
  · trivial

theorem closingLine_independent : closingLine.Independent where
  step_bare state insn ledger := by
    simp only [closingLine, ClosingLine.step, Ledger.lineHere_bare]
  suits_step state insn ledger := (ClosingLine.keepsLines_step state insn ledger).suits

end Noise

/-- Only markers without code are retracted along the code. -/
theorem Filter.keepsLines_step {filter : Filter} (h : filter ≠ .tryFinally)
    (state : filter.pattern.State) (insn : Instruction) (ledger : Ledger) :
    (filter.pattern.step state insn ledger).2.KeepsLines insn.isSwitch := by
  cases filter with
  | tryFinally => exact absurd rfl h
  | booleanNegation => exact Noise.BooleanNegation.keepsLines_step state insn ledger
  | assertions => exact Noise.Assertions.keepsLines_step state insn ledger
  | notNull => exact Noise.NotNull.keepsLines_step state insn ledger
  | stringSwitch => exact Noise.StringSwitch.keepsLines_step state insn ledger
  | defaultArgs => exact Noise.DefaultArgs.keepsLines_step state insn ledger
  | unsupportedCall => exact Noise.UnsupportedCall.keepsLines_step state insn ledger
  | castGuard => exact Noise.CastGuard.keepsLines_step state insn ledger
  | lateinit => exact Noise.Lateinit.keepsLines_step state insn ledger
  | tryWithResources => exact Noise.TryWithResources.keepsLines_step state insn ledger
  | closingLine => exact Noise.ClosingLine.keepsLines_step state insn ledger
  | coroutines => exact Noise.Coroutines.keepsLines_step state insn ledger
  | noBranchMatched => exact Noise.NoBranchMatched.keepsLines_step state insn ledger

/-- All patterns of the library are independent. -/
theorem Filter.independent_pattern (filter : Filter) : filter.pattern.Independent := by
  cases filter with
  | booleanNegation => exact Noise.booleanNegation_independent
  | assertions => exact Noise.assertions_independent
  | notNull => exact Noise.notNull_independent
  | stringSwitch => exact Noise.stringSwitch_independent
  | defaultArgs => exact Noise.defaultArgs_independent
  | unsupportedCall => exact Noise.unsupportedCall_independent
  | castGuard => exact Noise.castGuard_independent
  | lateinit => exact Noise.lateinit_independent
  | tryWithResources => exact Noise.tryWithResources_independent
  | tryFinally => exact Noise.tryFinally_independent
  | closingLine => exact Noise.closingLine_independent
  | coroutines => exact Noise.coroutines_independent
  | noBranchMatched => exact Noise.noBranchMatched_independent

end BytecodeCoverage
