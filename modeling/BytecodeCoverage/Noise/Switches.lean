import BytecodeCoverage.Noise.Pattern

/-!
# Generated switches

* A switch over strings is compiled to a switch over hash codes with comparisons in its cases
  (`stringSwitch`).
* An exhaustive switch still has a default case, which only throws (`noBranchMatched`).
-/

namespace BytecodeCoverage
namespace Noise

/-! ## Switches over strings

The switch after a call of `hashCode` opens a dispatch region, which ends at the next switch or at
a marker of another line. In it, the jump after each comparison with a literal is generated. -/

namespace StringSwitch

/-- Progress within one comparison. -/
inductive Step
  | base
  | loaded
  | literal
  | compared
  deriving DecidableEq

/-- Progress of a match. -/
inductive State
  | idle
  | hashed
  | dispatch (line : UInt32) (step : Step)

/-- Whether an instruction computes the hash code of a string. -/
def hashes (insn : Instruction) : Bool :=
  insn.isCall "java/lang/String" "hashCode" "()I"

/-- Whether an instruction compares two strings. -/
def compares (insn : Instruction) : Bool :=
  insn.isCall "java/lang/String" "equals" "(Ljava/lang/Object;)Z" ||
    insn.isCall "kotlin/jvm/internal/Intrinsics" "areEqual"
      "(Ljava/lang/Object;Ljava/lang/Object;)Z"

/-- The state after an instruction outside of dispatch regions. -/
def restart (insn : Instruction) : State :=
  if hashes insn then .hashed else .idle

/-- One instruction further within a comparison. -/
def Step.next (current : Step) (insn : Instruction) : Step :=
  match current, insn with
  | _, .localVar .aload _ => .loaded
  | .loaded, .ldc _ => .literal
  | .literal, insn => if compares insn then .compared else .base
  | _, _ => .base

/-- Whether an instruction is the jump after a comparison. -/
def isVerdict : Instruction → Bool
  | .jump .ifeq _ | .jump .ifne _ => true
  | _ => false

/-- One instruction further within the dispatch region of `line`. -/
def dispatch (line : UInt32) (current : Step) (insn : Instruction) (ledger : Ledger) :
    State × Action :=
  match insn with
  | .line other =>
      if other = line then (.dispatch line current, .nothing) else (restart insn, .nothing)
  | .label _ => (.dispatch line current, .nothing)
  | insn =>
      if insn.isSwitch then (.idle, .nothing)
      else if hashes insn then (.hashed, .nothing)
      else if isVerdict insn && current == .compared then
        (.dispatch line .base, .jumpHere ledger)
      else (.dispatch line (current.next insn), .nothing)

/-- One instruction further. -/
def step (state : State) (insn : Instruction) (ledger : Ledger) : State × Action :=
  match state with
  | .idle => (restart insn, .nothing)
  | .hashed =>
      match insn.isSwitch, ledger.switchHere with
      | true, some id =>
          let line := ((ledger.switch? id).map SwitchSite.line).getD 0
          (.dispatch line .base, .switch id)
      | _, _ => (restart insn, .nothing)
  | .dispatch line current => dispatch line current insn ledger

/-- The text of the progress within a comparison. -/
def Step.text : Step → String
  | .base => "Base"
  | .loaded => "Loaded"
  | .literal => "Literal"
  | .compared => "Compared"

/-- The text of a state in traces. -/
def State.text : State → String
  | .idle => "Idle"
  | .hashed => "Hashed"
  | .dispatch line step =>
      recordText "Dispatch" [("line", toString line.toNat), ("step", step.text)]

end StringSwitch

/-- Recognizes the hash dispatch of switches over strings. -/
def stringSwitch : Pattern where
  State := StringSwitch.State
  idle := .idle
  applies _ := true
  step := StringSwitch.step
  finish _ _ := .nothing
  text := StringSwitch.State.text

/-! ## Exhaustive switches

The default label of the last switch is placed, and the next executable instruction creates an
exception that says that no case matched. -/

namespace NoBranchMatched

/-- Progress of a match. -/
inductive State
  | idle
  | switched (site : SwitchId) (otherwise : Label)
  | atDefault (site : SwitchId)

/-- The exceptions that say that no case matched. -/
def unmatchedExceptions : List String :=
  ["kotlin/NoWhenBranchMatchedException", "java/lang/MatchException",
   "java/lang/IncompatibleClassChangeError"]

/-- The default label of a switch. -/
def defaultOf? : Instruction → Option Label
  | .tableSwitch _ _ otherwise _ | .lookupSwitch otherwise _ _ => some otherwise
  | _ => none

/-- One instruction further. -/
def step (state : State) (insn : Instruction) (ledger : Ledger) : State × Action :=
  match defaultOf? insn with
  | some otherwise =>
      match ledger.switchHere with
      | some site => (.switched site otherwise, .nothing)
      | none => (.idle, .nothing)
  | none =>
      match state, insn with
      | .switched site otherwise, .label placed =>
          if placed = otherwise then (.atDefault site, .nothing) else (state, .nothing)
      | .atDefault _, .label _ | .atDefault _, .line _ => (state, .nothing)
      | .atDefault site, insn =>
          if unmatchedExceptions.any insn.isNew then (.idle, .switchDefault site)
          else (.idle, .nothing)
      | state, _ => (state, .nothing)

/-- The text of a state in traces. -/
def State.text : State → String
  | .idle => "Idle"
  | .switched site otherwise =>
      recordText "Switched" [("switch", site.text), ("default", otherwise.traceText)]
  | .atDefault site => recordText "AtDefault" [("switch", site.text)]

end NoBranchMatched

/-- Recognizes defaults that only throw because no case matched. -/
def noBranchMatched : Pattern where
  State := NoBranchMatched.State
  idle := .idle
  applies _ := true
  step := NoBranchMatched.step
  finish _ _ := .nothing
  text := NoBranchMatched.State.text

end Noise
end BytecodeCoverage
