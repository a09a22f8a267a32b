import BytecodeCoverage.Machine.Value

/-!
# Frames

A frame is one running call: its code with the position reached, its operand stack and its local
variables.
-/

namespace BytecodeCoverage

namespace Machine

/-- A running call. -/
structure Frame where
  body : Body
  /-- The position of the instruction to execute. -/
  pos : Nat := 0
  /-- The operands, the top first. -/
  stack : List Value := []
  locals : List Value

namespace Frame

/-- A call at its start. The arguments are the first local variables, which are more than the
body declares if there are too many arguments; the others are null. -/
def enter (body : Body) (args : List Value) : Frame where
  body
  locals := args ++ List.replicate (body.maxLocals.toNat - args.length) .null

/-- The instruction to execute. -/
def current? (f : Frame) : Option Instruction :=
  f.body.code[f.pos]?

/-- Puts a value on the operand stack. -/
def push (f : Frame) (v : Value) : Frame :=
  { f with stack := v :: f.stack }

/-- Puts a value on the operand stack, if there is one. -/
def pushAny (f : Frame) : Option Value → Frame
  | some v => f.push v
  | none => f

/-- Takes the top of the operand stack. -/
def pop (f : Frame) : Except MachineFault (Value × Frame) :=
  match f.stack with
  | v :: rest => .ok (v, { f with stack := rest })
  | [] => .error .underflow

/-- Takes the top of the operand stack, which has to be an integer. -/
def popInt (f : Frame) : Except MachineFault (Int32 × Frame) := do
  match ← f.pop with
  | (.int n, f) => .ok (n, f)
  | (found, _) => .error (.notInteger found)

/-- Takes an index, which must not be negative. -/
def popIndex (f : Frame) : Except MachineFault (Nat × Frame) := do
  let (n, f) ← f.popInt
  if n < 0 then .error .beyondEnd else .ok (n.toInt.toNat, f)

/-- Takes `n` values. -/
def drop (f : Frame) (n : Nat) : Except MachineFault Frame :=
  if n ≤ f.stack.length then .ok { f with stack := f.stack.drop n } else .error .underflow

/-- Takes the `n` arguments of a call; the last one is on top. -/
def popArgs (f : Frame) (n : Nat) : Except MachineFault (List Value × Frame) :=
  if n ≤ f.stack.length then
    .ok ((f.stack.take n).reverse, { f with stack := f.stack.drop n })
  else .error .underflow

/-- The value of a local variable. -/
def load (f : Frame) (index : UInt16) : Except MachineFault Value :=
  match f.locals[index.toNat]? with
  | some v => .ok v
  | none => .error .beyondEnd

/-- Changes a local variable. -/
def store (f : Frame) (index : UInt16) (v : Value) : Except MachineFault Frame :=
  if index.toNat < f.locals.length then .ok { f with locals := f.locals.set index.toNat v }
  else .error .beyondEnd

/-- Turns to the next instruction. -/
def next (f : Frame) : Frame :=
  { f with pos := f.pos + 1 }

end Frame

end Machine

end BytecodeCoverage
