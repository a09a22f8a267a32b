import BytecodeCoverage.Coverage.Merge
import BytecodeCoverage.Options
import BytecodeCoverage.Registry.Basic

/-!
# Sessions

A session joins the options that classes are instrumented with, the registry that their code
reports to, and the records of the classes. A snapshot is taken by copying the counters into the
records.
-/

namespace BytecodeCoverage

/-- A run of instrumented classes. -/
structure Session where
  options : Options := {}
  registry : Registry := {}
  records : SortedMap String ClassRecord := .empty

namespace Session

/-- What the session's snapshots say. -/
def mode (s : Session) : Mode where
  branches := s.options.branches
  instructions := s.options.instructions
  counts := s.options.hits == .count

/-- Takes in the record of a class, in place of the one there may be, and declares its slots if
it has any. -/
def register (s : Session) (record : ClassRecord) : Session :=
  { s with
    registry :=
      if record.slotCount > 0 then s.registry.declare record.name record.slotCount
      else s.registry
    records := s.records.insert record.name record }

/-- The record of a class, without counters. -/
def record? (s : Session) (className : String) : Option ClassRecord :=
  s.records.get? className

/-- A record with the counters and, if tests are traced, the trace of its class. -/
def filled (s : Session) (record : ClassRecord) : ClassRecord :=
  let record :=
    match s.registry.counters? record.name with
    | some hits => record.applyHits hits
    | none => record
  if s.options.tracking then { record with trace := s.registry.tracker.mask? record.name }
  else record

/-- The records of all classes with their counters. -/
def snapshot (s : Session) : Snapshot :=
  s.records.values.foldl (fun snapshot record => snapshot.insert (s.filled record))
    { mode := s.mode }

/-- The merge of an earlier snapshot with the one of now. -/
def snapshotMerged (s : Session) (previous : Snapshot) : Snapshot :=
  previous.merge s.snapshot

/-- A test starts. -/
def startTest (s : Session) : Session :=
  { s with registry := { s.registry with tracker := s.registry.tracker.startTest } }

/-- A test ends; gives its trace. -/
def endTest (s : Session) (name : String) : TestTrace × Session :=
  let (trace, tracker) := s.registry.tracker.endTest name
  (trace, { s with registry := { s.registry with tracker } })

end Session

end BytecodeCoverage
