import BytecodeCoverage.Coverage.Record

/-!
# Merging coverage

The merge of two snapshots has the classes and lines of both. Counters of what both have are
added, at most up to the greatest word. Of two names the lesser is kept, of two counts of
instructions or slots the greater. A class that one side only names, without lines and without
having been instrumented there, is taken from the other side as it is.
-/

namespace BytecodeCoverage

/-- Joins two lists place by place; the longer one's rest is kept. -/
def zipLongest {α : Type} (f : α → α → α) : List α → List α → List α
  | a :: as, b :: bs => f a b :: zipLongest f as bs
  | [], bs => bs
  | as, [] => as

/-- Joins two optional values; a value alone is kept. -/
def joinOption {α : Type} (f : α → α → α) : Option α → Option α → Option α
  | some a, some b => some (f a b)
  | some a, none => some a
  | none, b => b

/-- The lesser of two texts by code points. -/
def lesser (a b : String) : String :=
  if b < a then b else a

namespace LineRecord

/-- Merges two records of a line; slots are the first one's. -/
def merge (a b : LineRecord) : LineRecord :=
  { a with
    hits := satAdd a.hits b.hits
    method := lesser a.method b.method
    instructions := joinOption max a.instructions b.instructions
    jumps := zipLongest JumpRecord.accumulate a.jumps b.jumps
    switches := zipLongest SwitchRecord.accumulate a.switches b.switches }

end LineRecord

namespace ClassRecord

/-- Whether a record says more than the name of the class. -/
def contributes (record : ClassRecord) : Bool :=
  record.fullyAnalyzed || !record.lines.isEmpty

/-- Merges all parts of two records of a class. -/
def mergeParts (a b : ClassRecord) : ClassRecord where
  name := a.name
  sourceFile := joinOption lesser a.sourceFile b.sourceFile
  lines := a.lines.union LineRecord.merge b.lines
  slotCount := max a.slotCount b.slotCount
  hits := zipLongest satAdd a.hits b.hits
  trace := joinOption (zipLongest or) a.trace b.trace
  fullyAnalyzed := a.fullyAnalyzed || b.fullyAnalyzed
  mapping := a.mapping.or b.mapping

/-- Merges two records of a class; a side that alone says more than the name is the result. -/
def merge (a b : ClassRecord) : ClassRecord :=
  match a.contributes, b.contributes with
  | true, false => a
  | false, true => b
  | _, _ => a.mergeParts b

end ClassRecord

/-- What was recorded on either side; counters are numbers only if they are on both. -/
def Mode.merge (a b : Mode) : Mode where
  branches := a.branches || b.branches
  instructions := a.instructions || b.instructions
  counts := a.counts && b.counts

/-- Merges two snapshots. -/
def Snapshot.merge (a b : Snapshot) : Snapshot where
  mode := a.mode.merge b.mode
  classes := a.classes.union ClassRecord.merge b.classes

end BytecodeCoverage
