import BytecodeCoverage.Code.Opcode

/-!
# Instructions

A method's code is a list of instructions. Destinations are not offsets but labels, which stand
in the code as instructions of their own, so inserting code never invalidates a target. Line
markers stand in the code as well; every later instruction belongs to the marked line, up to the
next marker. Labels and line markers do nothing when executed.

**Main definitions.**
* `Instruction`: the shapes of instructions; any opcode may occur in any shape.
* `Instruction.targets`, `Instruction.switchKeys`, `Instruction.flow`: what control flow needs.
-/

namespace BytecodeCoverage

/-- A destination within one method's code, known by a word of 32 bits. -/
structure Label where
  word : UInt32
  deriving DecidableEq

/-- The word of a number. Above the greatest word the words begin again at zero. -/
instance wordOfNat : Coe Nat UInt32 :=
  ⟨UInt32.ofNat⟩

namespace Label

/-- The number of a label. -/
def id (label : Label) : Nat :=
  label.word.toNat

/-- The labels from the word `first` on, as many as `count`. -/
def successive (first : UInt32) (count : Nat) : List Label :=
  (List.range count).map fun (i : Nat) => ⟨first + i⟩

end Label

/-- A method that computes a constant. -/
structure Handle where
  owner : String
  name : String
  descriptor : String

/-- The operand of a constant load. Floating-point numbers are kept as their bits. -/
inductive Constant
  | int (value : Int32)
  | long (value : Int64)
  | float (bits : UInt32)
  | double (bits : UInt64)
  | string (text : String)
  /-- A class, by its internal name or array descriptor. -/
  | type (name : String)
  /-- A value computed on first use by a method, from the listed constants. -/
  | dynamic (name descriptor : String) (bootstrap : Handle) (arguments : List Constant)
  deriving Inhabited

/-- One element of a method's code. -/
inductive Instruction
  | label (placed : Label)
  | line (number : UInt32)
  | simple (opcode : Opcode)
  | int (opcode : Opcode) (operand : Int32)
  /-- A load, a store or `ret`. -/
  | localVar (opcode : Opcode) (index : UInt16)
  | iinc (index : UInt16) (delta : Int16)
  | ldc (constant : Constant)
  | type (opcode : Opcode) (descriptor : String)
  | field (opcode : Opcode) (owner name descriptor : String)
  | method (opcode : Opcode) (owner name descriptor : String) (onInterface : Bool)
  | jump (opcode : Opcode) (target : Label)
  /-- One target for each key from `low` to `high`. -/
  | tableSwitch (low high : Int32) (otherwise : Label) (targets : List Label)
  /-- One target for each listed key. -/
  | lookupSwitch (otherwise : Label) (keys : List Int32) (targets : List Label)

/-- How an instruction affects control flow. -/
inductive Flow
  | marker
  | sequential
  | conditionalBranch
  | unconditionalBranch
  | switch
  | exit
  | throw
  deriving DecidableEq

/-- The integers from `low` to `high`, ascending; none if `high < low`. -/
def keyRange (low high : Int32) : List Int32 :=
  (List.range (high.toInt - low.toInt + 1).toNat).map fun (i : Nat) =>
    Int32.ofInt (low.toInt + (i : Int))

namespace Instruction

/-- The shortest instruction that pushes an integer. -/
def pushInt (value : Int32) : Instruction :=
  match value.toInt with
  | -1 => .simple .iconstM1
  | 0 => .simple .iconst0
  | 1 => .simple .iconst1
  | 2 => .simple .iconst2
  | 3 => .simple .iconst3
  | 4 => .simple .iconst4
  | 5 => .simple .iconst5
  | n =>
      if -128 ≤ n ∧ n ≤ 127 then .int .bipush value
      else if -32768 ≤ n ∧ n ≤ 32767 then .int .sipush value
      else .ldc (.int value)

/-- A call of a static method of a class. -/
def invokeStatic (owner name descriptor : String) : Instruction :=
  .method .invokestatic owner name descriptor false

/-- The opcode; labels and line markers have none. -/
def opcode? : Instruction → Option Opcode
  | .label _ | .line _ => none
  | .simple op | .int op _ | .localVar op _ | .type op _ | .field op .. | .method op ..
  | .jump op _ => some op
  | .iinc .. => some .iinc
  | .ldc _ => some .ldc
  | .tableSwitch .. => some .tableswitch
  | .lookupSwitch .. => some .lookupswitch

/-- Everything but labels and line markers executes. -/
def isExecutable : Instruction → Bool
  | .label _ | .line _ => false
  | _ => true

/-- Two-way branches. -/
def isConditionalJump : Instruction → Bool
  | .jump op _ => op.isConditionalJump
  | _ => false

/-- Multi-way branches. -/
def isSwitch : Instruction → Bool
  | .tableSwitch .. | .lookupSwitch .. => true
  | _ => false

/-- Line markers. -/
def isLine : Instruction → Bool
  | .line _ => true
  | _ => false

/-- Whether this is the operand-free instruction `op`. -/
def isSimple (op : Opcode) : Instruction → Bool
  | .simple op' => op' == op
  | _ => false

/-- Whether this is a jump with opcode `op`. -/
def isJumpWith (op : Opcode) : Instruction → Bool
  | .jump op' _ => op' == op
  | _ => false

/-- The variable read, if this is a load with opcode `op`. -/
def loadIndex? (op : Opcode) : Instruction → Option UInt16
  | .localVar op' index => if op' == op && op'.isLoad then some index else none
  | _ => none

/-- The variable written, if this is a store with opcode `op`. -/
def storeIndex? (op : Opcode) : Instruction → Option UInt16
  | .localVar op' index => if op' == op && op'.isStore then some index else none
  | _ => none

/-- Whether this calls `owner.name`, whatever its descriptor; no owner means any owner. -/
def isCallTo (owner name : String) : Instruction → Bool
  | .method _ owner' name' .. => (owner.isEmpty || owner' == owner) && name' == name
  | _ => false

/-- Whether this calls exactly the method `owner.name` with the descriptor. -/
def isCall (owner name descriptor : String) : Instruction → Bool
  | .method _ owner' name' descriptor' _ =>
      owner' == owner && name' == name && descriptor' == descriptor
  | _ => false

/-- Whether this creates an object of the class. -/
def isNew (className : String) : Instruction → Bool
  | .type .new descriptor => descriptor == className
  | _ => false

/-- The text pushed by a constant load. -/
def stringConstant? : Instruction → Option String
  | .ldc (.string text) => some text
  | _ => none

/-- The integer pushed by a constant instruction. -/
def intConstant? : Instruction → Option Int32
  | .simple op => op.intConstant
  | .int .bipush operand | .int .sipush operand => some operand
  | .ldc (.int value) => some value
  | _ => none

/-- The effect on control flow. -/
def flow : Instruction → Flow
  | .label _ | .line _ => .marker
  | .jump op _ => if op.isConditionalJump then .conditionalBranch else .unconditionalBranch
  | .tableSwitch .. | .lookupSwitch .. => .switch
  | .simple .athrow => .throw
  | .simple op => if op.isReturn then .exit else .sequential
  | .localVar .ret _ => .unconditionalBranch
  | _ => .sequential

/-- Whether execution may go on with the next instruction; markers fall through. Every jump but
`goto` counts as falling through. -/
def fallsThrough : Instruction → Bool
  | .jump op _ => op != .goto
  | insn =>
      match insn.flow with
      | .unconditionalBranch | .switch | .exit | .throw => false
      | _ => true

/-- The labels control may be transferred to, the default of a switch first. -/
def targets : Instruction → List Label
  | .jump _ target => [target]
  | .tableSwitch _ _ otherwise targets | .lookupSwitch otherwise _ targets => otherwise :: targets
  | _ => []

/-- The keys of a switch in the order of their targets. -/
def switchKeys? : Instruction → Option (List Int32)
  | .tableSwitch low high .. => some (keyRange low high)
  | .lookupSwitch _ keys _ => some keys
  | _ => none

/-- The labels that an instruction mentions: the ones it targets and the one it places. -/
def labels : Instruction → List Label
  | .label placed => [placed]
  | insn => insn.targets

end Instruction

end BytecodeCoverage
