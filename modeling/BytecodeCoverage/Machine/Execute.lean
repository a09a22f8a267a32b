import BytecodeCoverage.Machine.Frame
import BytecodeCoverage.Registry.Basic
import BytecodeCoverage.Registry.Entry

/-!
# Executing an instruction

What one instruction does to its frame, to the static fields and to the registry. An instruction
that fails changes nothing.

**Main definitions.**
* `World`: what all frames share.
* `Outcome`: how execution goes on after an instruction.
* `Instruction.execute`: the effect of each shape of instruction.
-/

namespace BytecodeCoverage

namespace Machine

/-- What all frames share. -/
structure World where
  /-- The class whose methods run. -/
  cls : ClassFile
  /-- The static fields by owner and name; a field that is missing holds null. -/
  statics : SortedMap String Value := .empty
  registry : Registry
  /-- The keeper of the constant texts. -/
  keeper : Nat := 0

/-- How execution goes on. -/
inductive Outcome
  /-- With the next instruction. -/
  | next (frame : Frame)
  | jump (frame : Frame) (target : Label)
  /-- With a method of the class; the frame goes on after the call. -/
  | call (frame : Frame) (name descriptor : String) (args : List Value)
  | leave (result : Option Value)

/-- What an instruction gives. -/
abbrev Executed := Except MachineFault (Outcome × World)

namespace World

/-- Asks the registry for the counters of a class. -/
def hits (w : World) (className : String) : Value × World :=
  let (array, registry) := w.registry.requestCached ⟨className, w.keeper⟩
  (.hits array, { w with registry })

/-- Asks the registry for the trace of a class. -/
def mask (w : World) (className : String) : Value × World :=
  (.mask className, { w with registry := w.registry.requestMask className })

/-- The number in an element of an array; large counters are read as the greatest integer. -/
def element (w : World) (array : Value) (index : Nat) : Except MachineFault Int32 :=
  match array with
  | .hits className =>
      match (w.registry.array className)[index]? with
      | some n => .ok (Int32.ofNat (min n.toNat 0x7fffffff))
      | none => .error .beyondEnd
  | .mask className =>
      match (w.registry.tracker.mask className)[index]? with
      | some b => .ok (if b then 1 else 0)
      | none => .error .beyondEnd
  | _ => .error .beyondEnd

/-- Writes an element of an array. A negative number is stored as zero. A flag of a trace can be
set, but writing zero does not clear it. -/
def setElement (w : World) (array : Value) (index : Nat) (n : Int32) : Except MachineFault World :=
  match array with
  | .hits className =>
      let (done, registry) := w.registry.store className index (UInt32.ofNat n.toInt.toNat)
      if done then .ok { w with registry } else .error .beyondEnd
  | .mask className =>
      if n = 0 then
        if index < (w.registry.tracker.mask className).length then .ok w else .error .beyondEnd
      else
        let (done, registry) := w.registry.traceSlot className index
        if done then .ok { w with registry } else .error .beyondEnd
  | _ => .error .beyondEnd

end World

/-- The hash of a text: its UTF-16 units as the digits of a number to base 31. -/
def textHash (s : String) : Int32 :=
  s.toList.foldl (fun hash c => (units c).foldl (fun hash unit => hash * 31 + unit) hash) 0
where
  /-- The UTF-16 units of a character. -/
  units (c : Char) : List Int32 :=
    if c.toNat < 0x10000 then [Int32.ofNat c.toNat]
    else
      [Int32.ofNat (0xd800 + (c.toNat - 0x10000) / 0x400),
       Int32.ofNat (0xdc00 + (c.toNat - 0x10000) % 0x400)]

/-- The operations on two integers; arithmetic wraps around, and division rounds toward zero. -/
def binary? : Opcode → Option (Int32 → Int32 → Except MachineFault Int32)
  | .iadd => some fun a b => .ok (a + b)
  | .isub => some fun a b => .ok (a - b)
  | .imul => some fun a b => .ok (a * b)
  | .idiv => some fun a b => if b = 0 then .error .divisionByZero else .ok (a / b)
  | .irem => some fun a b => if b = 0 then .error .divisionByZero else .ok (a % b)
  | .iand => some fun a b => .ok (a &&& b)
  | .ior => some fun a b => .ok (a ||| b)
  | .ixor => some fun a b => .ok (a ^^^ b)
  | _ => none

/-- The tests of one integer. -/
def test? : Opcode → Option (Int32 → Bool)
  | .ifeq => some fun a => a == 0
  | .ifne => some fun a => a != 0
  | .iflt => some fun a => a < 0
  | .ifge => some fun a => a ≥ 0
  | .ifgt => some fun a => a > 0
  | .ifle => some fun a => a ≤ 0
  | _ => none

/-- The comparisons of two integers. -/
def comparison? : Opcode → Option (Int32 → Int32 → Bool)
  | .ifIcmpeq => some fun a b => a == b
  | .ifIcmpne => some fun a b => a != b
  | .ifIcmplt => some fun a b => a < b
  | .ifIcmpge => some fun a b => a ≥ b
  | .ifIcmpgt => some fun a b => a > b
  | .ifIcmple => some fun a b => a ≤ b
  | _ => none

/-- An opcode that the machine does not know. -/
def unknown {α : Type} (op : Opcode) : Except MachineFault α :=
  .error (.unsupported op.mnemonic)

/-- Whether a jump is taken; the operands are gone in either case. -/
def branch (op : Opcode) (f : Frame) : Except MachineFault (Bool × Frame) :=
  match test? op, comparison? op with
  | some test, _ => do
      let (a, f) ← f.popInt
      .ok (test a, f)
  | none, some compare => do
      let (b, f) ← f.popInt
      let (a, f) ← f.popInt
      .ok (compare a b, f)
  | none, none =>
      match op with
      | .goto => .ok (true, f)
      | .ifnull => do
          let (v, f) ← f.pop
          .ok (v.isNull, f)
      | .ifnonnull => do
          let (v, f) ← f.pop
          .ok (!v.isNull, f)
      | .ifAcmpeq => do
          let (b, f) ← f.pop
          let (a, f) ← f.pop
          .ok (a.same b, f)
      | .ifAcmpne => do
          let (b, f) ← f.pop
          let (a, f) ← f.pop
          .ok (!a.same b, f)
      | op => unknown op

/-- An instruction without operands, apart from constants and arithmetic. -/
def executeSimple (op : Opcode) (f : Frame) (w : World) : Executed :=
  match op with
  | .nop => .ok (.next f, w)
  | .aconstNull => .ok (.next (f.push .null), w)
  | .ineg => do
      let (n, f) ← f.popInt
      .ok (.next (f.push (.int (-n))), w)
  | .dup =>
      match f.stack with
      | v :: _ => .ok (.next (f.push v), w)
      | [] => .error .underflow
  | .dup2 =>
      match f.stack with
      | v :: v' :: _ => .ok (.next ((f.push v').push v), w)
      | _ => .error .underflow
  | .pop => do
      let (_, f) ← f.pop
      .ok (.next f, w)
  | .pop2 => do
      let (_, f) ← f.pop
      let (_, f) ← f.pop
      .ok (.next f, w)
  | .iaload | .baload => do
      let (index, f) ← f.popIndex
      let (array, f) ← f.pop
      let n ← w.element array index
      .ok (.next (f.push (.int n)), w)
  | .iastore | .bastore => do
      let (n, f) ← f.popInt
      let (index, f) ← f.popIndex
      let (array, f) ← f.pop
      let w ← w.setElement array index n
      .ok (.next f, w)
  | .ireturn | .areturn => do
      let (v, _) ← f.pop
      .ok (.leave (some v), w)
  | .returnVoid => .ok (.leave none, w)
  | .athrow => .error .thrown
  | op => unknown op

/-- An instruction without operands. -/
def executeOpcode (op : Opcode) (f : Frame) (w : World) : Executed :=
  match op.intConstant, binary? op with
  | some n, _ => .ok (.next (f.push (.int n)), w)
  | none, some operation => do
      let (b, f) ← f.popInt
      let (a, f) ← f.popInt
      let n ← operation a b
      .ok (.next (f.push (.int n)), w)
  | none, none => executeSimple op f w

/-- Loads a constant. -/
def executeConstant (constant : Constant) (f : Frame) (w : World) : Executed :=
  match constant with
  | .int n => .ok (.next (f.push (.int n)), w)
  | .string s => .ok (.next (f.push (.text s)), w)
  | .dynamic _ _ bootstrap arguments =>
      if bootstrap.owner == Entry.owner &&
          (bootstrap.name == Entry.hitsConstant || bootstrap.name == Entry.flagsConstant) then
        match arguments with
        | .string className :: _ =>
            let (array, w) := w.hits className
            .ok (.next (f.push array), w)
        | _ => .error .noCounterClass
      else .error (.unsupported constant.text)
  | constant => .error (.unsupported constant.text)

/-- Reads or writes a local variable. -/
def executeVariable (op : Opcode) (index : UInt16) (f : Frame) (w : World) : Executed :=
  match op with
  | .iload | .aload => do
      let v ← f.load index
      .ok (.next (f.push v), w)
  | .istore | .astore => do
      let (v, f) ← f.pop
      let f ← f.store index v
      .ok (.next f, w)
  | op => unknown op

/-- Makes, casts or tests an object. -/
def executeType (op : Opcode) (f : Frame) (w : World) : Executed :=
  match op with
  | .new => .ok (.next (f.push .object), w)
  | .checkcast => .ok (.next f, w)
  | .instanceof => do
      let (v, f) ← f.pop
      .ok (.next (f.push (.ofBool !v.isNull)), w)
  | op => unknown op

/-- Reads or writes a static field. -/
def executeField (op : Opcode) (key : String) (f : Frame) (w : World) : Executed :=
  match op with
  | .getstatic => .ok (.next (f.push ((w.statics.get? key).getD .null)), w)
  | .putstatic => do
      let (v, f) ← f.pop
      .ok (.next f, { w with statics := w.statics.insert key v })
  | op => unknown op

/-- Calls the registry. -/
def executeEntry (name : String) (f : Frame) (w : World) : Executed := do
  match ← f.pop with
  | (.text className, f) =>
      if name == Entry.hits || name == Entry.flags then
        let (array, w) := w.hits className
        .ok (.next (f.push array), w)
      else if name == Entry.trace then
        let (mask, w) := w.mask className
        .ok (.next (f.push mask), w)
      else .error (.unsupported name)
  | (found, _) => .error (.notName found)

/-- The parameters of a called method. -/
def parameterCount (descriptor : String) : Except MachineFault Nat :=
  match MethodDescriptor.parse descriptor with
  | .ok parsed => .ok parsed.params.length
  | .error fault => .error (.badDescriptor fault)

/-- Hash of a text. -/
def executeHash (f : Frame) (w : World) : Executed := do
  match ← f.pop with
  | (.text s, f) => .ok (.next (f.push (.int (textHash s))), w)
  | _ => .error .nullPointer

/-- Equality of texts. -/
def executeEquals (f : Frame) (w : World) : Executed := do
  let (other, f) ← f.pop
  let (receiver, f) ← f.pop
  match receiver, other with
  | .text a, .text b => .ok (.next (f.push (.ofBool (a == b))), w)
  | .null, _ => .error .nullPointer
  | _, _ => .ok (.next (f.push (.ofBool false)), w)

/-- Calls a method: of the registry, of texts, a constructor, or a static one of the class. -/
def executeCall (op : Opcode) (owner name descriptor : String) (f : Frame) (w : World) :
    Executed :=
  if owner == Entry.owner then executeEntry name f w
  else if op == .invokevirtual && owner == "java/lang/String" && name == "hashCode" then
    executeHash f w
  else if op == .invokevirtual && owner == "java/lang/String" && name == "equals" then
    executeEquals f w
  else if op == .invokespecial && name == "<init>" then do
    let n ← parameterCount descriptor
    let f ← f.drop (n + 1)
    .ok (.next f, w)
  else if op == .invokestatic && owner == w.cls.name then do
    let n ← parameterCount descriptor
    let (args, f) ← f.popArgs n
    .ok (.call f name descriptor args, w)
  else .error (.unsupported (owner ++ "." ++ name ++ descriptor))

/-- The target of a table switch whose keys start at `low`. -/
def tableTarget (low : Int32) (otherwise : Label) (targets : List Label) (key : Int32) : Label :=
  if key < low then otherwise else targets[(key.toInt - low.toInt).toNat]?.getD otherwise

/-- The target of a lookup switch; of equal keys the first counts. -/
def lookupTarget (otherwise : Label) (key : Int32) : List Int32 → List Label → Label
  | k :: keys, target :: targets =>
      if k = key then target else lookupTarget otherwise key keys targets
  | _, _ => otherwise

end Machine

open Machine in
/-- Executes an instruction. -/
def Instruction.execute (insn : Instruction) (f : Frame) (w : World) : Executed :=
  match insn with
  | .label _ | .line _ => .ok (.next f, w)
  | .simple op => executeOpcode op f w
  | .int _ operand => .ok (.next (f.push (.int operand)), w)
  | .localVar op index => executeVariable op index f w
  | .iinc index delta => do
      match ← f.load index with
      | .int n =>
          let f ← f.store index (.int (n + Int32.ofInt delta.toInt))
          .ok (.next f, w)
      | found => .error (.notInteger found)
  | .ldc constant => executeConstant constant f w
  | .type op _ => executeType op f w
  | .field op owner name _ => executeField op (owner ++ "." ++ name) f w
  | .method op owner name descriptor _ => executeCall op owner name descriptor f w
  | .jump op target => do
      let (taken, f) ← branch op f
      if taken then .ok (.jump f target, w) else .ok (.next f, w)
  | .tableSwitch low _ otherwise targets => do
      let (key, f) ← f.popInt
      .ok (.jump f (tableTarget low otherwise targets key), w)
  | .lookupSwitch otherwise keys targets => do
      let (key, f) ← f.popInt
      .ok (.jump f (lookupTarget otherwise key keys targets), w)

end BytecodeCoverage
