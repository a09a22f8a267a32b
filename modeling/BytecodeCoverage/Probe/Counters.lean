import BytecodeCoverage.Code.Assembler
import BytecodeCoverage.Registry.Entry

/-!
# Getting hold of counters

Every instrumented method first loads the counters of its class. All strategies give the same
counters and differ in cost only. With a field, the class gets the field itself, a method that
fills it on demand, and a call of that method at the start of the class initializer, which is
made if there is none.
-/

namespace BytecodeCoverage

/-- A way for the code of a class to get its counters. -/
structure Counters where
  strategy : Strategy
  className : String
  mode : HitMode

namespace Counters

/-- The depth of the operand stack that `acquire` needs. -/
def acquireDepth : UInt16 := 1

/-- Leaves the counters on an empty operand stack. -/
def acquire (c : Counters) : List Instruction :=
  match c.strategy with
  | .field => [.field .getstatic c.className Entry.field (Entry.arrayDescriptor c.mode)]
  | .localVar => [.ldc (.string c.className), Entry.callHits c.mode]
  | .constant => [.ldc (Entry.constant c.mode c.className)]

/-- The descriptor of the method that fills the field. -/
def accessorDescriptor (c : Counters) : String :=
  "()" ++ Entry.arrayDescriptor c.mode

/-- Private, static, transient and not in the sources. -/
def fieldAccess : Access := ⟨0x108a⟩

/-- Private, static and not in the sources. -/
def accessorAccess : Access := ⟨0x100a⟩

/-- The field for the counters. -/
def field (c : Counters) : Field where
  name := Entry.field
  descriptor := Entry.arrayDescriptor c.mode
  access := fieldAccess

/-- Returns what is in the field; fills it first if it is empty. -/
def accessorBody (c : Counters) : Body :=
  let array := Entry.arrayDescriptor c.mode
  let (ready, asm) := Assembler.newLabel {}
  let code : List Instruction :=
    [.field .getstatic c.className Entry.field array, .simple .dup, .jump .ifnonnull ready,
     .simple .pop, .ldc (.string c.className), Entry.callHits c.mode, .simple .dup,
     .field .putstatic c.className Entry.field array, .label ready, .simple .areturn]
  ((code.foldl Assembler.emit asm).stack 2).build.1

/-- The method that fills the field. -/
def accessor (c : Counters) : Method where
  name := Entry.accessor
  descriptor := c.accessorDescriptor
  access := accessorAccess
  body := some c.accessorBody

/-- Fills the field. -/
def fill (c : Counters) : List Instruction :=
  [.invokeStatic c.className Entry.accessor c.accessorDescriptor, .simple .pop]

/-- A class initializer that only fills the field. -/
def initializer (c : Counters) : Method where
  name := Method.initializerName
  descriptor := "()V"
  access := ⟨Access.static⟩
  body :=
    let code := c.fill ++ [Instruction.simple .returnVoid]
    some ((code.foldl Assembler.emit {}).stack 1).build.1

/-- Lets code fill the field before anything else. -/
def prependFill (c : Counters) (body : Body) : Body :=
  { body with code := c.fill ++ body.code, maxStack := max body.maxStack 1 }

/-- Lets the first class initializer fill the field. There is none if the first class initializer
is missing or has no code. -/
def extendInitializer? (c : Counters) : List Method → Option (List Method)
  | [] => none
  | m :: rest =>
      if m.isInitializer then
        m.body.map fun body => { m with body := some (c.prependFill body) } :: rest
      else (c.extendInitializer? rest).map (m :: ·)

/-- Adds the members that the code needs to its class. -/
def prepare (c : Counters) (cls : ClassFile) : ClassFile :=
  match c.strategy with
  | .field =>
      let methods := cls.methods ++ [c.accessor]
      { cls with
        fields := cls.fields ++ [c.field]
        methods := (c.extendInitializer? methods).getD (methods ++ [c.initializer]) }
  | .localVar | .constant => cls

end Counters

end BytecodeCoverage
