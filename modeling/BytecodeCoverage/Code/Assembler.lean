import BytecodeCoverage.Code.Body
import BytecodeCoverage.Saturating

/-!
# Assembling bodies

An assembler collects instructions in order, draws labels, and keeps the highest local variable
that any instruction touches, so that a body never declares too few. The limit on the operand
stack has to be given: nothing here simulates the stack.
-/

namespace BytecodeCoverage

/-- A body under construction. -/
structure Assembler where
  code : List Instruction := []
  tryRanges : List TryRange := []
  nextLabel : UInt32 := 0
  maxStack : UInt16 := 0
  maxLocals : UInt16 := 0

namespace Assembler

/-- The number of local variables an instruction needs. -/
def localsTouched : Instruction → UInt16
  | .localVar op index => satAdd16 index op.localWidth
  | .iinc index _ => satAdd16 index 1
  | _ => 0

/-- Reserves at least `count` local variables. -/
def locals (asm : Assembler) (count : UInt16) : Assembler :=
  { asm with maxLocals := max asm.maxLocals count }

/-- Sets the limit on the operand stack. -/
def stack (asm : Assembler) (depth : UInt16) : Assembler :=
  { asm with maxStack := depth }

/-- Draws a label without placing it. -/
def newLabel (asm : Assembler) : Label × Assembler :=
  (⟨asm.nextLabel⟩, { asm with nextLabel := asm.nextLabel + 1 })

/-- Appends an instruction. -/
def emit (asm : Assembler) (insn : Instruction) : Assembler :=
  { asm with
    code := asm.code ++ [insn]
    maxLocals := max asm.maxLocals (localsTouched insn) }

/-- Places a label here. -/
def place (asm : Assembler) (label : Label) : Assembler :=
  asm.emit (.label label)

/-- Draws a label and places it here. -/
def label (asm : Assembler) : Label × Assembler :=
  let (fresh, asm) := asm.newLabel
  (fresh, asm.place fresh)

/-- Pushes an integer. -/
def iconst (asm : Assembler) (value : Int32) : Assembler :=
  asm.emit (.pushInt value)

/-- A table switch whose keys start at `low`; there is one key for each target. Neither the number
of keys nor the last key goes beyond the greatest integer there is. -/
def tableSwitch (asm : Assembler) (low : Int32) (otherwise : Label) (targets : List Label) :
    Assembler :=
  let count := min (targets.length : Int) Int32.maxValue.toInt
  let high := min (low.toInt + count - 1) Int32.maxValue.toInt
  asm.emit (.tableSwitch low (Int32.ofInt (max high Int32.minValue.toInt)) otherwise targets)

/-- A lookup switch; the cases may come in any order. -/
def lookupSwitch (asm : Assembler) (otherwise : Label) (cases : List (Int32 × Label)) :
    Assembler :=
  let sorted := cases.mergeSort fun a b => a.1 ≤ b.1
  asm.emit (.lookupSwitch otherwise (sorted.map Prod.fst) (sorted.map Prod.snd))

/-- A call, on an interface exactly if the opcode says so. -/
def invoke (asm : Assembler) (op : Opcode) (owner name descriptor : String) : Assembler :=
  asm.emit (.method op owner name descriptor (op == .invokeinterface))

/-- Appends an entry to the exception table. -/
def tryCatch (asm : Assembler) (start stop handler : Label) (catchType : Option String) :
    Assembler :=
  { asm with tryRanges := asm.tryRanges ++ [⟨start, stop, handler, catchType⟩] }

/-- The body collected so far. What is collected starts anew; labels and limits go on. -/
def build (asm : Assembler) : Body × Assembler :=
  (Body.ofParts asm.code asm.tryRanges asm.maxStack asm.maxLocals,
    { asm with code := [], tryRanges := [] })

/-- Builds a body and checks it. -/
def finish (asm : Assembler) : Except Body.Defect Body × Assembler :=
  let (body, asm) := asm.build
  (body.check.map fun _ => body, asm)

end Assembler

end BytecodeCoverage
