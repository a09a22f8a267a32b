import BytecodeCoverage.Probe.Counters
import BytecodeCoverage.Probe.Slots
import BytecodeCoverage.Probe.Windows

/-!
# Probes

A probe adds to a counter, or sets a flag, in a slot of an array that a local variable holds. The
variable is filled at the start of the method. With tests traced, a second variable holds the
trace of the class, and the probe of a line sets the line's flag there too.

A probe leaves the operand stack as it was. What it needs above the method's own depth is added
to the method's limit.
-/

namespace BytecodeCoverage

/-- What the probes of a class do. -/
structure ProbeStyle where
  counters : Counters
  /-- The class to whose trace lines are added, if tests are traced. -/
  traced : Option String

namespace Probe

/-- The operands of a probe, depending on what it does. -/
def depth : HitMode → UInt16
  | .count => 4
  | .flag => 3

/-- Pushes the number of a slot. -/
def pushSlot (slot : Nat) : Instruction :=
  .pushInt (Int32.ofNat (min slot 0x7fffffff))

/-- Counts in a slot of the array in a local variable. -/
def code (mode : HitMode) (array : UInt16) (slot : Nat) : List Instruction :=
  [.localVar .aload array, pushSlot slot] ++
    match mode with
    | .count =>
        [.simple .dup2, .simple .iaload, .simple .iconst1, .simple .iadd, .simple .iastore]
    | .flag => [.simple .iconst1, .simple .bastore]

end Probe

namespace ProbeStyle

/-- The kind of the counters. -/
def mode (style : ProbeStyle) : HitMode :=
  style.counters.mode

/-- The local variables the probes need. -/
def extraLocals (style : ProbeStyle) : UInt16 :=
  if style.traced.isSome then 2 else 1

/-- The code at the start of a method; `array` is the first of the probes' variables. -/
def prologue (style : ProbeStyle) (array : UInt16) : List Instruction :=
  style.counters.acquire ++ [.localVar .astore array] ++
    match style.traced with
    | some className =>
        [.ldc (.string className), Entry.callTrace, .localVar .astore (array + 1)]
    | none => []

/-- The probe at a site with a slot. -/
def probe (style : ProbeStyle) (array : UInt16) (site : ProbeSite) (slot : Nat) :
    List Instruction :=
  Probe.code style.mode array slot ++
    match site with
    | .line _ => if style.traced.isSome then Probe.code .flag (array + 1) slot else []
    | _ => []

/-- The code for an element of split code; a site without a slot has no probe. -/
def item (style : ProbeStyle) (array : UInt16) (slots : MethodSlots) : Item → List Instruction
  | .insn insn => [insn]
  | .probe site =>
      match slots.slot? site with
      | some slot => style.probe array site slot
      | none => []

end ProbeStyle

/-- Puts probes into split code. -/
def SplitBody.fill (split : SplitBody) (slots : MethodSlots) (style : ProbeStyle) : Body :=
  let array := split.maxLocals
  Body.ofParts (style.prologue array ++ split.items.flatMap (style.item array slots))
    split.tryRanges
    (max (satAdd16 split.maxStack (Probe.depth style.mode)) Counters.acquireDepth)
    (array + style.extraLocals)

end BytecodeCoverage
