import BytecodeCoverage.Coverage.Record
import BytecodeCoverage.Probe.Site

/-!
# Slot layout

The slots of a class are handed out from zero on, method by method, in the order in which the
kept entries stand in the code. A line that occurs in several methods keeps the record and the
slot it got first.

**Main definitions.**
* `MethodSlots`: the slots of one method's probe sites.
* `ClassRecord.assign`: makes the records of a scanned method.
-/

namespace BytecodeCoverage

/-- The slots of one jump. -/
structure JumpSlots where
  taken : Nat
  notTaken : Nat
  deriving DecidableEq

/-- The slots of one switch. -/
structure SwitchSlots where
  cases : List Nat
  otherwise : Option Nat
  deriving DecidableEq

/-- The slots of a method: of lines by number, of branches by position in the code. -/
structure MethodSlots where
  lines : SortedMap UInt32 Nat := .empty
  jumps : SortedMap Nat JumpSlots := .empty
  switches : SortedMap Nat SwitchSlots := .empty

namespace MethodSlots

/-- The slot that a probe site counts in. -/
def slot? (slots : MethodSlots) : ProbeSite → Option Nat
  | .line number => slots.lines.get? number
  | .taken index => (slots.jumps.get? index).map JumpSlots.taken
  | .notTaken index => (slots.jumps.get? index).map JumpSlots.notTaken
  | .case index pos => (slots.switches.get? index).bind fun s => s.cases[pos]?
  | .otherwise index => (slots.switches.get? index).bind SwitchSlots.otherwise

/-- Whether there is nothing to probe. -/
def isEmpty (slots : MethodSlots) : Bool :=
  slots.lines.isEmpty

/-- Notes the slot of a line, unless there is one. -/
def noteLine (slots : MethodSlots) (number : UInt32) (slot : Nat) : MethodSlots :=
  { slots with lines := slots.lines.update number fun old => old.getD slot }

end MethodSlots

namespace ClassRecord

/-- Hands out the slots of one kept entry. The entry's line has a record afterwards. -/
def assignKept (signature : String) (record : ClassRecord) (slots : MethodSlots) :
    Kept → ClassRecord × MethodSlots
  | .line marker =>
      let (line, record) := record.lineOrInsert marker.line signature
      (record, slots.noteLine marker.line line.slot)
  | .jump site =>
      let (line, record) := record.lineOrInsert site.line signature
      let (taken, record) := record.allocateSlot
      let (notTaken, record) := record.allocateSlot
      let jump : JumpRecord := { takenSlot := taken, notTakenSlot := notTaken }
      let slots := slots.noteLine site.line line.slot
      (record.modifyLine site.line fun line => { line with jumps := line.jumps ++ [jump] },
        { slots with jumps := slots.jumps.insert site.index ⟨taken, notTaken⟩ })
  | .switch site =>
      let (line, record) := record.lineOrInsert site.line signature
      let (cases, record) := record.allocateSlots site.keys.length
      let (otherwise, record) :=
        if site.defaultRetracted then (none, record)
        else
          let (slot, record) := record.allocateSlot
          (some slot, record)
      let switch := SwitchRecord.fresh site.keys cases otherwise
      let slots := slots.noteLine site.line line.slot
      (record.modifyLine site.line fun line => { line with switches := line.switches ++ [switch] },
        { slots with switches := slots.switches.insert site.index ⟨cases, otherwise⟩ })

/-- Hands out the slots of kept entries in their order. -/
def assignAll (signature : String) :
    List Kept → ClassRecord → MethodSlots → ClassRecord × MethodSlots
  | [], record, slots => (record, slots)
  | kept :: rest, record, slots =>
      let (record, slots) := record.assignKept signature slots kept
      assignAll signature rest record slots

/-- Adds numbers of instructions to the records of their lines. -/
def addCounts (record : ClassRecord) (counts : List (UInt32 × Nat)) : ClassRecord :=
  counts.foldl
    (fun record (number, n) =>
      record.modifyLine number fun line =>
        { line with instructions := some (line.instructions.getD 0 + n) })
    record

/-- Makes the records of a scanned method. With `count` the instructions of its lines are
counted; a line that the method did not keep gets nothing from it. -/
def assign (record : ClassRecord) (signature : String) (scan : Scan) (count : Bool) :
    ClassRecord × MethodSlots :=
  let (record, slots) := assignAll signature scan.kept record {}
  let kept := scan.counts.entries.filter fun e => slots.lines.contains e.1
  (if count then record.addCounts kept else record, slots)

end ClassRecord

end BytecodeCoverage
