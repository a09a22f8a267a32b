import BytecodeCoverage.Scan.Ledger

/-!
# Recognizers of compiler noise

Compilers add lines and branches that nobody wrote. A pattern recognizes one kind of them: a
small machine that looks at each instruction right after it has been registered, and asks for
retractions. It never looks back; what it needs from earlier instructions is in its state.

A recognition is a guess from the shape of the code. Code written by hand in the same shape is
recognized as well.
-/

namespace BytecodeCoverage

/-- A retraction that a pattern asks for. -/
inductive Action
  | nothing
  | lastLine
  | lastJump
  | lastSwitch
  | lastSwitchDefault
  | line (id : MarkerId)
  | jump (id : JumpId)
  | switch (id : SwitchId)
  | switchDefault (id : SwitchId)
  deriving DecidableEq

namespace Action

/-- Retracts the entry named by `id`, if there is one. -/
def onSome {ι : Type} (remove : Ledger → ι → Ledger × Bool) (ledger : Ledger) :
    Option ι → Ledger × Bool
  | some id => remove ledger id
  | none => (ledger, false)

/-- Performs a retraction; says whether an entry was retracted by it. -/
def apply (action : Action) (ledger : Ledger) : Ledger × Bool :=
  match action with
  | .nothing => (ledger, false)
  | .lastLine => onSome Ledger.removeLine ledger ledger.lastLine
  | .lastJump => onSome Ledger.removeJump ledger ledger.lastJump
  | .lastSwitch => onSome Ledger.removeSwitch ledger ledger.lastSwitch
  | .lastSwitchDefault => onSome Ledger.removeSwitchDefault ledger ledger.lastSwitch
  | .line id => ledger.removeLine id
  | .jump id => ledger.removeJump id
  | .switch id => ledger.removeSwitch id
  | .switchDefault id => ledger.removeSwitchDefault id

/-- Retracts the jump looked at, if it is registered. -/
def jumpHere (ledger : Ledger) : Action :=
  match ledger.jumpHere with
  | some id => .jump id
  | none => .nothing

end Action

/-! ## Texts -/

/-- A marker as it is named in traces of patterns. -/
def MarkerId.text (id : MarkerId) : String :=
  "MarkerId(" ++ toString id.pos ++ ")"

/-- A jump as it is named in traces of patterns. -/
def JumpId.text (id : JumpId) : String :=
  "JumpId(" ++ toString id.pos ++ ")"

/-- A switch as it is named in traces of patterns. -/
def SwitchId.text (id : SwitchId) : String :=
  "SwitchId(" ++ toString id.pos ++ ")"

/-- A label as it is named in traces of patterns. -/
def Label.traceText (label : Label) : String :=
  "LabelId(" ++ toString label.id ++ ")"

/-- The text of a retraction in traces of patterns. -/
def Action.text : Action → String
  | .nothing => "None"
  | .lastLine => "RemoveLastLine"
  | .lastJump => "RemoveLastJump"
  | .lastSwitch => "RemoveLastSwitch"
  | .lastSwitchDefault => "RemoveLastSwitchDefault"
  | .line id => "RemoveLine(" ++ id.text ++ ")"
  | .jump id => "RemoveJump(" ++ id.text ++ ")"
  | .switch id => "RemoveSwitch(" ++ id.text ++ ")"
  | .switchDefault id => "RemoveSwitchDefault(" ++ id.text ++ ")"

/-- A state that remembers a jump, in traces of patterns. -/
def jumpStateText (name : String) (jump : JumpId) : String :=
  recordText name [("jump", jump.text)]

/-! ## Patterns -/

/-- A machine that recognizes one kind of noise. -/
structure Pattern where
  /-- How far a match has come. -/
  State : Type
  /-- No match has begun. -/
  idle : State
  /-- Whether the pattern is looked for in a method at all. -/
  applies : Scope → Bool
  /-- One instruction further; the ledger already holds what was registered for it. -/
  step : State → Instruction → Ledger → State × Action
  /-- What is asked for at the end of the code. -/
  finish : State → Ledger → Action
  /-- The text of a state in traces. -/
  text : State → String

/-- A pattern in some state. -/
structure Matcher where
  pattern : Pattern
  state : pattern.State

namespace Matcher

/-- A pattern before the first instruction. -/
def start (pattern : Pattern) : Matcher :=
  ⟨pattern, pattern.idle⟩

/-- One instruction further: the new state and the retraction asked for. -/
def step (m : Matcher) (insn : Instruction) (ledger : Ledger) : Matcher × Action :=
  let (state, action) := m.pattern.step m.state insn ledger
  (⟨m.pattern, state⟩, action)

/-- The retraction asked for at the end. -/
def finish (m : Matcher) (ledger : Ledger) : Action :=
  m.pattern.finish m.state ledger

/-- The text of the state. -/
def text (m : Matcher) : String :=
  m.pattern.text m.state

end Matcher

end BytecodeCoverage
