import BytecodeCoverage.Noise.Pattern

/-!
# Generated line markers

* A marker that covers nothing but labels and `nop` opens a `try` (`tryFinally`).
* A last marker that covers nothing but the implicit `return` stands for a closing brace; it is
  kept if the method has no other line (`closingLine`).
-/

namespace BytecodeCoverage
namespace Noise

/-! ## Markers without code -/

namespace TryFinally

/-- Progress of a match. -/
inductive State
  | idle
  /-- A marker that has covered nothing so far. -/
  | opened (marker : MarkerId)

/-- The state after a marker. -/
def openHere (ledger : Ledger) : State :=
  match ledger.lineHere with
  | some marker => .opened marker
  | none => .idle

/-- One instruction further. -/
def step (state : State) (insn : Instruction) (ledger : Ledger) : State × Action :=
  match state, insn with
  | .opened marker, .line _ => (openHere ledger, .line marker)
  | .idle, .line _ => (openHere ledger, .nothing)
  | .opened _, .label _ | .opened _, .simple .nop => (state, .nothing)
  | _, _ => (.idle, .nothing)

/-- A marker open at the end covers nothing. -/
def finish : State → Ledger → Action
  | .opened marker, _ => .line marker
  | .idle, _ => .nothing

/-- The text of a state in traces. -/
def State.text : State → String
  | .idle => "Idle"
  | .opened marker => "Open(" ++ marker.text ++ ")"

end TryFinally

/-- Recognizes markers that cover nothing but labels and `nop`. -/
def tryFinally : Pattern where
  State := TryFinally.State
  idle := .idle
  applies _ := true
  step := TryFinally.step
  finish := TryFinally.finish
  text := TryFinally.State.text

/-! ## Closing lines -/

namespace ClosingLine

/-- Progress of a match. -/
inductive State
  | idle
  /-- A marker that has covered only labels so far. -/
  | marked (marker : MarkerId)
  /-- A marker that has covered only labels and one `return`. -/
  | returned (marker : MarkerId)

/-- One instruction further. -/
def step (state : State) (insn : Instruction) (ledger : Ledger) : State × Action :=
  match state, insn with
  | _, .line _ =>
      match ledger.lineHere with
      | some marker => (.marked marker, .nothing)
      | none => (.idle, .nothing)
  | .marked _, .label _ | .returned _, .label _ => (state, .nothing)
  | .marked marker, .simple .returnVoid => (.returned marker, .nothing)
  | _, _ => (.idle, .nothing)

/-- The closing line goes if another line keeps a marker. -/
def finish (state : State) (ledger : Ledger) : Action :=
  match state with
  | .returned id =>
      match ledger.marker? id with
      | some marker =>
          if ledger.keptLines.any fun other => other != marker.line then .line id else .nothing
      | none => .nothing
  | _ => .nothing

/-- The text of a state in traces. -/
def State.text : State → String
  | .idle => "Idle"
  | .marked marker => "Marked(" ++ marker.text ++ ")"
  | .returned marker => "Returned(" ++ marker.text ++ ")"

end ClosingLine

/-- Recognizes a last line that holds only the implicit `return`. -/
def closingLine : Pattern where
  State := ClosingLine.State
  idle := .idle
  applies _ := true
  step := ClosingLine.step
  finish := ClosingLine.finish
  text := ClosingLine.State.text

end Noise
end BytecodeCoverage
