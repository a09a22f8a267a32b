import BytecodeCoverage.Noise.Pattern

/-!
# Generated null tests

Jumps that test a reference against null, put there by a compiler:

* not-null assertions on parameters and results (`notNull`);
* guards of casts to non-null types (`castGuard`);
* guards of properties that are initialized late (`lateinit`);
* the guard against calls of a default-argument stub through `super` (`unsupportedCall`);
* the tests around the closing of a resource (`tryWithResources`).
-/

namespace BytecodeCoverage
namespace Noise

/-- Continues a match, or looks at the instruction as the possible start of a new one. -/
def orRestart {σ : Type} (restart : σ) : Option σ → σ × Action
  | some next => (next, .nothing)
  | none => (restart, .nothing)

/-- Whether a text starts with another one. -/
def startsWith (opening text : String) : Bool :=
  opening.toList.isPrefixOf text.toList

/-- Whether a text ends with another one. -/
def endsWith (ending text : String) : Bool :=
  ending.toList.isSuffixOf text.toList

/-- Whether an instruction pushes a text with a given opening. -/
def pushesTextFrom (opening : String) (insn : Instruction) : Bool :=
  insn.stringConstant?.any (startsWith opening)

/-- Whether an instruction loads a reference from a local variable. -/
def loadsReference (insn : Instruction) : Bool :=
  (insn.loadIndex? .aload).isSome

/-- The class of helpers called by generated checks. -/
def intrinsics : String := "kotlin/jvm/internal/Intrinsics"

/-- What stubs for default arguments have at the end of their names. -/
def defaultStubEnding : String := "$default"

/-! ## Not-null assertions

A reference is loaded and perhaps duplicated, `ifnonnull` skips the report, and the report is
either a call with the number of the parameter, a call of a helper, or one of three exceptions. -/

namespace NotNull

/-- Progress of a match. -/
inductive State
  | idle
  | loaded
  | duplicated
  | tested (jump : JumpId)
  | pushedIndex (jump : JumpId)

/-- The state after an instruction that continues no match. -/
def restart (insn : Instruction) : State :=
  if loadsReference insn then .loaded else .idle

/-- The exceptions thrown for a null reference. -/
def guardExceptions : List String :=
  ["java/lang/IllegalArgumentException", "java/lang/IllegalStateException",
   "java/lang/NullPointerException"]

/-- Whether an instruction starts to report a null reference. -/
def reports (insn : Instruction) : Bool :=
  guardExceptions.any insn.isNew || insn.isCallTo intrinsics "throwNpe" ||
    insn.isCallTo intrinsics "throwJavaNpe"

/-- One instruction further. -/
def step (state : State) (insn : Instruction) (ledger : Ledger) : State × Action :=
  let restarted := orRestart (restart insn)
  let tested :=
    restarted <|
      if insn.isJumpWith .ifnonnull then ledger.jumpHere.map State.tested else none
  match state with
  | .idle => restarted none
  | .loaded => if insn.isSimple .dup then (.duplicated, .nothing) else tested
  | .duplicated => tested
  | .tested jump =>
      if insn.intConstant?.isSome then (.pushedIndex jump, .nothing)
      else if reports insn then (.idle, .jump jump)
      else restarted none
  | .pushedIndex jump =>
      if insn.isCallTo "" "$$$reportNull$$$0" then (.idle, .jump jump) else restarted none

/-- The text of a state in traces. -/
def State.text : State → String
  | .idle => "Idle"
  | .loaded => "Loaded"
  | .duplicated => "Duplicated"
  | .tested jump => jumpStateText "Tested" jump
  | .pushedIndex jump => jumpStateText "PushedIndex" jump

end NotNull

/-- Recognizes not-null assertions. -/
def notNull : Pattern where
  State := NotNull.State
  idle := .idle
  applies _ := true
  step := NotNull.step
  finish _ _ := .nothing
  text := NotNull.State.text

/-! ## Cast guards

The operand of the cast is duplicated, `ifnonnull` skips the throw, and the message of the
exception says what could not be cast. -/

namespace CastGuard

/-- Progress of a match. -/
inductive State
  | idle
  | duplicated
  | tested (jump : JumpId)
  | allocated (jump : JumpId)
  | constructing (jump : JumpId)

/-- The state after an instruction that continues no match. -/
def restart (insn : Instruction) : State :=
  if insn.isSimple .dup then .duplicated else .idle

/-- One instruction further. -/
def step (state : State) (insn : Instruction) (ledger : Ledger) : State × Action :=
  let restarted := orRestart (restart insn)
  match state with
  | .idle => restarted none
  | .duplicated =>
      restarted <|
        if insn.isJumpWith .ifnonnull then ledger.jumpHere.map State.tested else none
  | .tested jump =>
      restarted <|
        if insn.isNew "java/lang/NullPointerException" then some (.allocated jump) else none
  | .allocated jump =>
      restarted <| if insn.isSimple .dup then some (.constructing jump) else none
  | .constructing jump =>
      if pushesTextFrom "null cannot be cast to non-null type" insn then (.idle, .jump jump)
      else restarted none

/-- The text of a state in traces. -/
def State.text : State → String
  | .idle => "Idle"
  | .duplicated => "Duplicated"
  | .tested jump => jumpStateText "Tested" jump
  | .allocated jump => jumpStateText "Allocated" jump
  | .constructing jump => jumpStateText "Constructing" jump

end CastGuard

/-- Recognizes guards of casts to non-null types. -/
def castGuard : Pattern where
  State := CastGuard.State
  idle := .idle
  applies _ := true
  step := CastGuard.step
  finish _ _ := .nothing
  text := CastGuard.State.text

/-! ## Late initialization

A field is read and perhaps duplicated, `ifnonnull` skips the report, and the report is a call
with the name of the property. -/

namespace Lateinit

/-- Progress of a match. -/
inductive State
  | idle
  | read
  | duplicated
  | tested (jump : JumpId)
  | named (jump : JumpId)

/-- Whether an instruction reads a field. -/
def readsField : Instruction → Bool
  | .field .getfield .. | .field .getstatic .. => true
  | _ => false

/-- The state after an instruction that continues no match. -/
def restart (insn : Instruction) : State :=
  if readsField insn then .read else .idle

/-- One instruction further. -/
def step (state : State) (insn : Instruction) (ledger : Ledger) : State × Action :=
  let restarted := orRestart (restart insn)
  let tested :=
    restarted <|
      if insn.isJumpWith .ifnonnull then ledger.jumpHere.map State.tested else none
  match state with
  | .idle => restarted none
  | .read => if insn.isSimple .dup then (.duplicated, .nothing) else tested
  | .duplicated => tested
  | .tested jump =>
      restarted <| if insn.stringConstant?.isSome then some (.named jump) else none
  | .named jump =>
      if insn.isCallTo intrinsics "throwUninitializedPropertyAccessException" then
        (.idle, .jump jump)
      else restarted none

/-- The text of a state in traces. -/
def State.text : State → String
  | .idle => "Idle"
  | .read => "Read"
  | .duplicated => "Duplicated"
  | .tested jump => jumpStateText "Tested" jump
  | .named jump => jumpStateText "Named" jump

end Lateinit

/-- Recognizes guards of properties that are initialized late. -/
def lateinit : Pattern where
  State := Lateinit.State
  idle := .idle
  applies _ := true
  step := Lateinit.step
  finish _ _ := .nothing
  text := Lateinit.State.text

/-! ## Unsupported calls

A stub for default arguments loads its marker argument, and throws with a fixed message unless
`ifnull` finds it missing. -/

namespace UnsupportedCall

/-- Progress of a match. -/
inductive State
  | idle
  | loaded
  | tested (jump : JumpId)
  | allocated (jump : JumpId)
  | duplicated (jump : JumpId)

/-- The state after an instruction that continues no match. -/
def restart (insn : Instruction) : State :=
  if loadsReference insn then .loaded else .idle

/-- One instruction further. -/
def step (state : State) (insn : Instruction) (ledger : Ledger) : State × Action :=
  let restarted := orRestart (restart insn)
  match state with
  | .idle => restarted none
  | .loaded =>
      restarted <| if insn.isJumpWith .ifnull then ledger.jumpHere.map State.tested else none
  | .tested jump =>
      restarted <|
        if insn.isNew "java/lang/UnsupportedOperationException" then some (.allocated jump)
        else none
  | .allocated jump =>
      restarted <| if insn.isSimple .dup then some (.duplicated jump) else none
  | .duplicated jump =>
      if pushesTextFrom "Super calls with default arguments not supported" insn then
        (.idle, .jump jump)
      else restarted none

/-- The text of a state in traces. -/
def State.text : State → String
  | .idle => "Idle"
  | .loaded => "Loaded"
  | .tested jump => jumpStateText "Tested" jump
  | .allocated jump => jumpStateText "Allocated" jump
  | .duplicated jump => jumpStateText "Duplicated" jump

end UnsupportedCall

/-- Recognizes the guard of default-argument stubs against calls through `super`. -/
def unsupportedCall : Pattern where
  State := UnsupportedCall.State
  idle := .idle
  applies scope := endsWith defaultStubEnding scope.method.name
  step := UnsupportedCall.step
  finish _ _ := .nothing
  text := UnsupportedCall.State.text

/-! ## Closing of resources

A reference is loaded and tested against null in either sense, loaded again from the same
variable, and closed. -/

namespace TryWithResources

/-- Progress of a match. -/
inductive State
  | idle
  | loaded (index : UInt16)
  | tested (index : UInt16) (jump : JumpId)
  | reloaded (jump : JumpId)

/-- The state after an instruction that continues no match. -/
def restart (insn : Instruction) : State :=
  match insn.loadIndex? .aload with
  | some index => .loaded index
  | none => .idle

/-- Whether an instruction closes a resource. -/
def closes : Instruction → Bool
  | .method .invokeinterface _ name descriptor _ | .method .invokevirtual _ name descriptor _ =>
      name == "close" && descriptor == "()V"
  | _ => false

/-- One instruction further. -/
def step (state : State) (insn : Instruction) (ledger : Ledger) : State × Action :=
  let restarted := orRestart (restart insn)
  match state with
  | .idle => restarted none
  | .loaded index =>
      restarted <|
        if insn.isJumpWith .ifnull || insn.isJumpWith .ifnonnull then
          ledger.jumpHere.map (State.tested index)
        else none
  | .tested index jump =>
      restarted <|
        if insn.loadIndex? .aload == some index then some (.reloaded jump) else none
  | .reloaded jump => if closes insn then (.idle, .jump jump) else restarted none

/-- The text of a state in traces. -/
def State.text : State → String
  | .idle => "Idle"
  | .loaded index => recordText "Loaded" [("local", toString index.toNat)]
  | .tested index jump =>
      recordText "Tested" [("local", toString index.toNat), ("jump", jump.text)]
  | .reloaded jump => jumpStateText "Reloaded" jump

end TryWithResources

/-- Recognizes the tests around the closing of a resource. -/
def tryWithResources : Pattern where
  State := TryWithResources.State
  idle := .idle
  applies _ := true
  step := TryWithResources.step
  finish _ _ := .nothing
  text := TryWithResources.State.text

end Noise
end BytecodeCoverage
