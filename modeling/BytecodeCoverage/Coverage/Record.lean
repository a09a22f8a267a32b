import BytecodeCoverage.Coverage.Branch
import BytecodeCoverage.Coverage.Status
import BytecodeCoverage.SortedMap
import BytecodeCoverage.SourceMap.Basic

/-!
# Records of lines and classes

A class record holds a record for each of its lines, by number, and a counter for each of its
slots. Slots are numbered from zero on; a slot belongs to a line or to one outcome of a branch.
-/

namespace BytecodeCoverage

/-- Coverage of one line. Branches stand in the order of their instructions. -/
structure LineRecord where
  /-- The signature of the first method in which the line was met. -/
  method : String
  slot : Nat
  hits : UInt32 := 0
  jumps : List JumpRecord := []
  switches : List SwitchRecord := []
  /-- How many executable instructions the line has, if they were counted. -/
  instructions : Option Nat := none
  deriving DecidableEq

namespace LineRecord

/-- The counters of all outcomes on the line. -/
def outcomes (line : LineRecord) : List UInt32 :=
  line.jumps.flatMap JumpRecord.outcomes ++ line.switches.flatMap SwitchRecord.outcomes

/-- The number of outcomes on the line. -/
def outcomeCount (line : LineRecord) : Nat :=
  line.switches.foldl (fun n switch => n + switch.outcomeCount) (2 * line.jumps.length)

/-- The status of the line. -/
def status (line : LineRecord) : Status :=
  .ofCounts line.hits line.outcomes

/-- Whether there are jumps or switches on the line. -/
def hasBranches (line : LineRecord) : Bool :=
  !line.jumps.isEmpty || !line.switches.isEmpty

/-- The slots of the line and of its outcomes, the line's own first. -/
def slots (line : LineRecord) : List Nat :=
  line.slot ::
    (line.jumps.flatMap JumpRecord.slots ++ line.switches.flatMap SwitchRecord.slots)

/-- Copies the counters of the line and of its outcomes from their slots. -/
def applyHits (hits : List UInt32) (line : LineRecord) : LineRecord :=
  { line with
    hits := slotValue hits line.slot
    jumps := line.jumps.map (JumpRecord.applyHits hits)
    switches := line.switches.map (SwitchRecord.applyHits hits) }

end LineRecord

/-- Counts of lines and outcomes. -/
structure Summary where
  lines : Nat := 0
  linesCovered : Nat := 0
  linesFull : Nat := 0
  outcomes : Nat := 0
  outcomesCovered : Nat := 0
  deriving DecidableEq

namespace Summary

/-- Adds the counts. -/
def add (a b : Summary) : Summary where
  lines := a.lines + b.lines
  linesCovered := a.linesCovered + b.linesCovered
  linesFull := a.linesFull + b.linesFull
  outcomes := a.outcomes + b.outcomes
  outcomesCovered := a.outcomesCovered + b.outcomesCovered

/-- The share of `part` in `total`; all of nothing is covered. -/
def ratio (part total : Nat) : Float :=
  if total = 0 then 1 else Float.ofNat part / Float.ofNat total

/-- The covered share of the lines. -/
def lineRatio (s : Summary) : Float :=
  ratio s.linesCovered s.lines

/-- The covered share of the outcomes. -/
def outcomeRatio (s : Summary) : Float :=
  ratio s.outcomesCovered s.outcomes

end Summary

/-- The counts of one line. -/
def LineRecord.summary (line : LineRecord) : Summary where
  lines := 1
  linesCovered := if line.status = .uncovered then 0 else 1
  linesFull := if line.status = .full then 1 else 0
  outcomes := line.outcomeCount
  outcomesCovered := line.outcomes.countP fun n => n != 0

/-- Coverage of one class. -/
structure ClassRecord where
  name : String
  sourceFile : Option String := none
  /-- The records of the lines, by number. -/
  lines : SortedMap UInt32 LineRecord := .empty
  slotCount : Nat := 0
  /-- The counter of each slot. -/
  hits : List UInt32 := []
  /-- The slots hit during the current test, if tests are traced. -/
  trace : Option (List Bool) := none
  /-- Whether the class has been instrumented, and not only named. -/
  fullyAnalyzed : Bool := false
  mapping : Option SourceMap := none

namespace ClassRecord

/-- Takes the next free slot. -/
def allocateSlot (record : ClassRecord) : Nat × ClassRecord :=
  (record.slotCount, { record with slotCount := record.slotCount + 1 })

/-- Takes the next `n` free slots. -/
def allocateSlots (record : ClassRecord) (n : Nat) : List Nat × ClassRecord :=
  (List.range' record.slotCount n, { record with slotCount := record.slotCount + n })

/-- The record of a line. -/
def line? (record : ClassRecord) (number : UInt32) : Option LineRecord :=
  record.lines.get? number

/-- Puts a record of a line in place of the one there may be. -/
def insertLine (record : ClassRecord) (number : UInt32) (line : LineRecord) : ClassRecord :=
  { record with lines := record.lines.insert number line }

/-- Changes the record of a line, if there is one. -/
def modifyLine (record : ClassRecord) (number : UInt32) (f : LineRecord → LineRecord) :
    ClassRecord :=
  match record.line? number with
  | some line => record.insertLine number (f line)
  | none => record

/-- The record of a line. If there is none, it is made with a fresh slot. -/
def lineOrInsert (record : ClassRecord) (number : UInt32) (method : String) :
    LineRecord × ClassRecord :=
  match record.line? number with
  | some line => (line, record)
  | none =>
      let (slot, record) := record.allocateSlot
      let line : LineRecord := { method, slot }
      (line, record.insertLine number line)

/-- The status of a line. -/
def status? (record : ClassRecord) (number : UInt32) : Option Status :=
  (record.line? number).map LineRecord.status

/-- Copies the counters of all lines from their slots, the class's own counters staying. -/
def applyToLines (record : ClassRecord) (hits : List UInt32) : ClassRecord :=
  { record with lines := record.lines.mapValues fun _ line => line.applyHits hits }

/-- Takes over a class's counters and copies those of its lines. -/
def applyHits (record : ClassRecord) (hits : List UInt32) : ClassRecord :=
  { record.applyToLines hits with hits }

/-- The counts of the class. -/
def summary (record : ClassRecord) : Summary :=
  (record.lines.values.map LineRecord.summary).foldr Summary.add {}

/-- The lines whose slots are set in the trace. -/
def tracedLines (record : ClassRecord) : List UInt32 :=
  match record.trace with
  | some flags =>
      (record.lines.entries.filter fun e => flags[e.2.slot]?.getD false).map Prod.fst
  | none => []

end ClassRecord

/-- What was recorded in a snapshot. -/
structure Mode where
  branches : Bool := true
  instructions : Bool := false
  /-- Counters hold numbers of executions, and not only whether there was one. -/
  counts : Bool := true
  deriving DecidableEq

/-- Coverage of classes, by name. -/
structure Snapshot where
  mode : Mode := {}
  classes : SortedMap String ClassRecord := .empty

namespace Snapshot

/-- Stores a record under its name. -/
def insert (s : Snapshot) (record : ClassRecord) : Snapshot :=
  { s with classes := s.classes.insert record.name record }

/-- The record of a class. -/
def class? (s : Snapshot) (name : String) : Option ClassRecord :=
  s.classes.get? name

/-- The counts of all classes. -/
def summary (s : Snapshot) : Summary :=
  (s.classes.values.map ClassRecord.summary).foldr Summary.add {}

end Snapshot

end BytecodeCoverage
