import BytecodeCoverage.Proofs.Scan.History

/-!
# What filters ask for

Most filters retract jumps.  Two also retract switches, one retracts defaults, and two retract
markers.

**Main definitions.**
* `Filter.Asks`: what a filter may ask for.

**Results.**
* `Filter.asks_askedAfter`: what a filter asks for along a history.
-/

namespace BytecodeCoverage

open Noise

namespace Action

/-- What is asked for is the retraction of a jump, if anything. -/
def OnlyJump : Action → Prop
  | .nothing | .jump _ => True
  | _ => False

/-- What is asked for is the retraction of a jump or a whole switch, if anything. -/
def OnlyBranch : Action → Prop
  | .nothing | .jump _ | .switch _ => True
  | _ => False

/-- What is asked for is the retraction of a default, if anything. -/
def OnlyDefault : Action → Prop
  | .nothing | .switchDefault _ => True
  | _ => False

/-- What is asked for is the retraction of a marker, if anything. -/
def OnlyLine : Action → Prop
  | .nothing | .line _ => True
  | _ => False

end Action

namespace Noise

theorem fst_orRestart {σ : Type} (restart : σ) (next : Option σ) :
    (orRestart restart next).1 = next.getD restart := by
  cases next <;> rfl

theorem snd_orRestart {σ : Type} (restart : σ) (next : Option σ) :
    (orRestart restart next).2 = .nothing := by
  cases next <;> rfl

theorem onlyJump_jumpHere (ledger : Ledger) : (Action.jumpHere ledger).OnlyJump := by
  unfold Action.jumpHere
  split <;> trivial

theorem StringSwitch.onlyBranch_dispatch (line : UInt32) (current : Step) (insn : Instruction)
    (ledger : Ledger) : (dispatch line current insn ledger).2.OnlyBranch := by
  unfold dispatch
  split
  · split <;> trivial
  · trivial
  · split
    · trivial
    · split
      · trivial
      · split
        · unfold Action.jumpHere
          split <;> trivial
        · trivial

theorem TryFinally.onlyLine_step (state : State) (insn : Instruction) (ledger : Ledger) :
    (step state insn ledger).2.OnlyLine := by
  unfold step
  split <;> trivial

theorem ClosingLine.onlyLine_step (state : State) (insn : Instruction) (ledger : Ledger) :
    (step state insn ledger).2.OnlyLine := by
  unfold step
  split
  · split <;> trivial
  · trivial
  · trivial
  · trivial
  · trivial

theorem NoBranchMatched.onlyDefault_step (state : State) (insn : Instruction) (ledger : Ledger) :
    (step state insn ledger).2.OnlyDefault := by
  unfold step
  split
  · split <;> trivial
  · split
    · split <;> trivial
    · trivial
    · trivial
    · split <;> trivial
    · trivial

end Noise

/-- What a filter may ask for along the code. -/
def Filter.Asks : Filter → Action → Prop
  | .stringSwitch | .coroutines => Action.OnlyBranch
  | .noBranchMatched => Action.OnlyDefault
  | .tryFinally | .closingLine => Action.OnlyLine
  | _ => Action.OnlyJump

namespace Filter

theorem asks_step (filter : Filter) (state : filter.pattern.State) (insn : Instruction)
    (ledger : Ledger) : filter.Asks (filter.pattern.step state insn ledger).2 := by
  cases filter with
  | booleanNegation =>
      change (BooleanNegation.step state insn ledger).2.OnlyJump
      cases state <;> grind [BooleanNegation.step, snd_orRestart, Action.OnlyJump]
  | assertions =>
      change (Assertions.step state insn ledger).2.OnlyJump
      cases state <;> grind [Assertions.step, onlyJump_jumpHere, Action.OnlyJump]
  | notNull =>
      change (NotNull.step state insn ledger).2.OnlyJump
      cases state <;> grind [NotNull.step, snd_orRestart, Action.OnlyJump]
  | stringSwitch =>
      change (StringSwitch.step state insn ledger).2.OnlyBranch
      cases state <;> grind [StringSwitch.step, StringSwitch.onlyBranch_dispatch, Action.OnlyBranch]
  | defaultArgs =>
      change (DefaultArgs.step state insn ledger).2.OnlyJump
      cases state <;> grind [DefaultArgs.step, onlyJump_jumpHere, Action.OnlyJump]
  | unsupportedCall =>
      change (UnsupportedCall.step state insn ledger).2.OnlyJump
      cases state <;> grind [UnsupportedCall.step, snd_orRestart, Action.OnlyJump]
  | castGuard =>
      change (CastGuard.step state insn ledger).2.OnlyJump
      cases state <;> grind [CastGuard.step, snd_orRestart, Action.OnlyJump]
  | lateinit =>
      change (Lateinit.step state insn ledger).2.OnlyJump
      cases state <;> grind [Lateinit.step, snd_orRestart, Action.OnlyJump]
  | tryWithResources =>
      change (TryWithResources.step state insn ledger).2.OnlyJump
      cases state <;> grind [TryWithResources.step, snd_orRestart, Action.OnlyJump]
  | tryFinally => exact TryFinally.onlyLine_step state insn ledger
  | closingLine => exact ClosingLine.onlyLine_step state insn ledger
  | coroutines =>
      change (Coroutines.step state insn ledger).2.OnlyBranch
      cases state <;> grind [Coroutines.step, snd_orRestart, Action.OnlyBranch]
  | noBranchMatched => exact NoBranchMatched.onlyDefault_step state insn ledger

theorem asks_askedAfter (filter : Filter) (e : Enumeration) (seen : List Instruction) :
    filter.Asks (filter.pattern.askedAfter e seen) := by
  cases seen with
  | nil => cases filter <;> trivial
  | cons insn seen => exact filter.asks_step ..

/-- The filters that look for jumps alone. -/
def ofJumps : List Filter :=
  [.booleanNegation, .assertions, .notNull, .defaultArgs, .unsupportedCall, .castGuard, .lateinit,
   .tryWithResources]

variable {filter : Filter} {e : Enumeration} {seen : List Instruction} {id : SwitchId}

theorem onlyJump_askedAfter (h : filter ∈ ofJumps) (e : Enumeration) (seen : List Instruction) :
    (filter.pattern.askedAfter e seen).OnlyJump := by
  have hasks := filter.asks_askedAfter e seen
  cases filter with
  | stringSwitch | tryFinally | closingLine | coroutines | noBranchMatched =>
      exact absurd h (by decide)
  | _ => exact hasks

/-- Two filters ask for whole switches. -/
theorem eq_of_asks_switch (h : filter.pattern.askedAfter e seen = .switch id) :
    filter = .stringSwitch ∨ filter = .coroutines := by
  have hasks := filter.asks_askedAfter e seen
  rw [h] at hasks
  cases filter with
  | stringSwitch => exact .inl rfl
  | coroutines => exact .inr rfl
  | _ => exact hasks.elim

/-- Only one filter asks for defaults. -/
theorem eq_of_asks_switchDefault (h : filter.pattern.askedAfter e seen = .switchDefault id) :
    filter = .noBranchMatched := by
  have hasks := filter.asks_askedAfter e seen
  rw [h] at hasks
  cases filter with
  | noBranchMatched => rfl
  | _ => exact hasks.elim

end Filter

end BytecodeCoverage
