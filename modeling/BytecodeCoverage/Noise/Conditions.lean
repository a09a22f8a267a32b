import BytecodeCoverage.Noise.NullTests

/-!
# Generated conditions

Jumps that decide something the source does not ask:

* the toggle and the conditions of assertions (`assertions`);
* the selection of a constant by a negation (`booleanNegation`);
* the tests for omitted arguments in default-argument stubs (`defaultArgs`);
* the state dispatch and the suspension tests of coroutines (`coroutines`).
-/

namespace BytecodeCoverage
namespace Noise

/-! ## Assertions

The toggle is read and `ifne` skips the assertion. The condition follows; its last jump stands
before the creation of the error. A method exit or a throw ends the assertion. -/

namespace Assertions

/-- The generated field that turns assertions off. -/
def toggle : String := "$assertionsDisabled"

/-- Progress of a match. -/
inductive State
  | idle
  | flag
  | inAssert
  | condJump (jump : JumpId)

/-- Whether an instruction reads the toggle. -/
def readsToggle : Instruction → Bool
  | .field .getstatic _ name _ => name == toggle
  | _ => false

/-- The state after an instruction outside of assertions. -/
def restart (insn : Instruction) : State :=
  if readsToggle insn then .flag else .idle

/-- Whether an instruction leaves the method. -/
def leaves : Instruction → Bool
  | .simple op => op == .athrow || op.isReturn
  | _ => false

/-- One instruction further inside an assertion, `state` being the state before. -/
def inside (state : State) (insn : Instruction) (ledger : Ledger) : State :=
  if !insn.isExecutable then state
  else if insn.isConditionalJump then
    match ledger.jumpHere with
    | some jump => .condJump jump
    | none => .inAssert
  else if leaves insn then .idle
  else if readsToggle insn then .flag
  else .inAssert

/-- One instruction further. -/
def step (state : State) (insn : Instruction) (ledger : Ledger) : State × Action :=
  match state with
  | .idle => (restart insn, .nothing)
  | .flag =>
      if insn.isJumpWith .ifne then (.inAssert, .jumpHere ledger) else (restart insn, .nothing)
  | .inAssert => (inside state insn ledger, .nothing)
  | .condJump jump =>
      if insn.isNew "java/lang/AssertionError" then (.idle, .jump jump)
      else (inside state insn ledger, .nothing)

/-- The text of a state in traces. -/
def State.text : State → String
  | .idle => "Idle"
  | .flag => "Flag"
  | .inAssert => "InAssert"
  | .condJump jump => jumpStateText "CondJump" jump

end Assertions

/-- Recognizes assertions, in classes with the toggle. -/
def assertions : Pattern where
  State := Assertions.State
  idle := .idle
  applies scope := (scope.cls.field? Assertions.toggle).isSome
  step := Assertions.step
  finish _ _ := .nothing
  text := Assertions.State.text

/-! ## Negations

`ifeq` or `ifne` goes to `target`, one of 0 and 1 is pushed, `goto` goes to `stop`, `target` is
placed, the other one is pushed, `stop` is placed. -/

namespace BooleanNegation

/-- Progress of a match. -/
inductive State
  | idle
  | jumped (jump : JumpId) (target : Label)
  | firstConst (jump : JumpId) (target : Label) (value : Int32)
  | skipped (jump : JumpId) (target : Label) (value : Int32) (stop : Label)
  | atTarget (jump : JumpId) (value : Int32) (stop : Label)
  | secondConst (jump : JumpId) (stop : Label)

/-- The state after an instruction that continues no match. -/
def restart (insn : Instruction) (ledger : Ledger) : State :=
  match insn, ledger.jumpHere with
  | .jump .ifeq target, some jump | .jump .ifne target, some jump => .jumped jump target
  | _, _ => .idle

/-- The truth value that an instruction pushes. -/
def truthValue? (insn : Instruction) : Option Int32 :=
  insn.intConstant?.filter fun value => value == 0 || value == 1

/-- The state after an instruction that continues the match. -/
def continued? (state : State) (insn : Instruction) : Option State :=
  match state with
  | .jumped jump target => (truthValue? insn).map (.firstConst jump target)
  | .firstConst jump target value =>
      match insn with
      | .jump .goto stop => some (.skipped jump target value stop)
      | _ => none
  | .skipped jump target value stop =>
      match insn with
      | .label placed => if placed = target then some (.atTarget jump value stop) else none
      | _ => none
  | .atTarget jump value stop =>
      if truthValue? insn == some (1 - value) then some (.secondConst jump stop) else none
  | _ => none

/-- Whether an instruction places a label. -/
def places (label : Label) : Instruction → Bool
  | .label placed => decide (placed = label)
  | _ => false

/-- One instruction further. -/
def step (state : State) (insn : Instruction) (ledger : Ledger) : State × Action :=
  let next := orRestart (restart insn ledger) (continued? state insn)
  match state with
  | .secondConst jump stop => if places stop insn then (.idle, .jump jump) else next
  | _ => next

/-- The text of a state in traces. -/
def State.text : State → String
  | .idle => "Idle"
  | .jumped jump target =>
      recordText "Jumped" [("jump", jump.text), ("target", target.traceText)]
  | .firstConst jump target value =>
      recordText "FirstConst"
        [("jump", jump.text), ("target", target.traceText), ("value", toString value.toInt)]
  | .skipped jump target value stop =>
      recordText "Skipped"
        [("jump", jump.text), ("target", target.traceText), ("value", toString value.toInt),
         ("end", stop.traceText)]
  | .atTarget jump value stop =>
      recordText "AtTarget"
        [("jump", jump.text), ("value", toString value.toInt), ("end", stop.traceText)]
  | .secondConst jump stop =>
      recordText "SecondConst" [("jump", jump.text), ("end", stop.traceText)]

end BooleanNegation

/-- Recognizes negations that select a constant. -/
def booleanNegation : Pattern where
  State := BooleanNegation.State
  idle := .idle
  applies _ := true
  step := BooleanNegation.step
  finish _ _ := .nothing
  text := BooleanNegation.State.text

/-! ## Default arguments

The mask of omitted arguments is loaded, one bit of it is selected and tested. -/

namespace DefaultArgs

/-- Progress of a match. -/
inductive State
  | idle
  | loaded
  | bit
  | masked

/-- The state after an instruction that continues no match. -/
def restart (insn : Instruction) : State :=
  if (insn.loadIndex? .iload).isSome then .loaded else .idle

/-- One instruction further. -/
def step (state : State) (insn : Instruction) (ledger : Ledger) : State × Action :=
  let restarted := (restart insn, Action.nothing)
  match state with
  | .idle => restarted
  | .loaded => if insn.intConstant?.isSome then (.bit, .nothing) else restarted
  | .bit => if insn.isSimple .iand then (.masked, .nothing) else restarted
  | .masked =>
      if insn.isJumpWith .ifeq || insn.isJumpWith .ifne then (.idle, .jumpHere ledger)
      else restarted

/-- The text of a state in traces. -/
def State.text : State → String
  | .idle => "Idle"
  | .loaded => "Loaded"
  | .bit => "Bit"
  | .masked => "Masked"

end DefaultArgs

/-- Recognizes the tests for omitted arguments, in stubs for default arguments. -/
def defaultArgs : Pattern where
  State := DefaultArgs.State
  idle := .idle
  applies scope := scope.method.isStatic && endsWith defaultStubEnding scope.method.name
  step := DefaultArgs.step
  finish _ _ := .nothing
  text := DefaultArgs.State.text

/-! ## Coroutines

A switch right after a read of the state label dispatches on the state. A result compared with
the marker of suspension and returned early if they agree is a suspension test. -/

namespace Coroutines

/-- Progress of a match. -/
inductive State
  | idle
  | labelRead
  | result
  | compared
  | tested (jump : JumpId)
  | reloaded (jump : JumpId)

/-- Whether an instruction reads the state label. -/
def readsLabel : Instruction → Bool
  | .field .getfield _ name descriptor => name == "label" && descriptor == "I"
  | _ => false

/-- The state after an instruction that continues no match. -/
def restart (insn : Instruction) : State :=
  if readsLabel insn then .labelRead
  else if insn.isSimple .dup || loadsReference insn then .result
  else .idle

/-- One instruction further. -/
def step (state : State) (insn : Instruction) (ledger : Ledger) : State × Action :=
  let restarted := orRestart (restart insn)
  match state with
  | .idle => restarted none
  | .labelRead =>
      match insn.isSwitch, ledger.switchHere with
      | true, some site => (.idle, .switch site)
      | _, _ => restarted none
  | .result => restarted <| if loadsReference insn then some .compared else none
  | .compared =>
      restarted <|
        if insn.isJumpWith .ifAcmpne then ledger.jumpHere.map State.tested else none
  | .tested jump =>
      if loadsReference insn then (.reloaded jump, .nothing)
      else if insn.isSimple .areturn then (.idle, .jump jump)
      else restarted none
  | .reloaded jump =>
      if insn.isSimple .areturn then (.idle, .jump jump) else restarted none

/-- The text of a state in traces. -/
def State.text : State → String
  | .idle => "Idle"
  | .labelRead => "LabelRead"
  | .result => "Result"
  | .compared => "Compared"
  | .tested jump => jumpStateText "Tested" jump
  | .reloaded jump => jumpStateText "Reloaded" jump

end Coroutines

/-- Recognizes the plumbing of coroutines, in methods that ask for the marker of suspension. -/
def coroutines : Pattern where
  State := Coroutines.State
  idle := .idle
  applies scope :=
    scope.calls "kotlin/coroutines/intrinsics/IntrinsicsKt" "getCOROUTINE_SUSPENDED"
  step := Coroutines.step
  finish _ _ := .nothing
  text := Coroutines.State.text

end Noise
end BytecodeCoverage
