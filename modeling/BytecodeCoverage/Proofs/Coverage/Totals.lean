import Mathlib.Algebra.GroupWithZero.Nat
import BytecodeCoverage.Coverage.Record

/-!
# What a summary counts

A record copies its counters from an array.  So its summary can be told from the array and from the
slots of its lines and outcomes: a line counts as covered if the counter in its slot is not zero,
and as full if the counters of its outcomes are not zero either.

**Main definitions.**
* `LineRecord.branchSlots`, `ClassRecord.branchSlots`: the slots of outcomes.
* `Summary.ofLines`: the counts of lines, told from an array.
* `Summary.sum`: counts added field by field.

**Results.**
* `LineRecord.summary_applyHits`, `ClassRecord.summary_applyHits`: the summary of a record that has
  copied its counters.
* `Summary.foldr_add`: the counts of several records.
-/

namespace BytecodeCoverage

/-- The counter in the slot is not zero. -/
def isHit (hits : List UInt32) (slot : Nat) : Bool :=
  slotValue hits slot != 0

/-! ## Lines -/

theorem SwitchRecord.length_slots (switch : SwitchRecord) :
    switch.slots.length = switch.outcomeCount :=
  List.length_append

/-- Switches have as many slots as outcomes. -/
theorem SwitchRecord.foldl_outcomeCount (switches : List SwitchRecord) (n : Nat) :
    switches.foldl (fun n switch => n + switch.outcomeCount) n =
      n + (switches.flatMap SwitchRecord.slots).length := by
  induction switches generalizing n with
  | nil => rfl
  | cons switch rest ih =>
      rw [List.foldl_cons, ih, List.flatMap_cons, List.length_append, SwitchRecord.length_slots,
        Nat.add_assoc]

/-- Each jump has two slots. -/
theorem JumpRecord.length_flatMap_slots (jumps : List JumpRecord) :
    (jumps.flatMap JumpRecord.slots).length = 2 * jumps.length := by
  induction jumps with
  | nil => rfl
  | cons jump rest ih =>
      rw [List.flatMap_cons, List.length_append, ih, List.length_cons, Nat.mul_succ, Nat.add_comm]
      rfl

theorem SwitchRecord.outcomes_applyHits (switch : SwitchRecord) (hits : List UInt32) :
    (switch.applyHits hits).outcomes = switch.slots.map (slotValue hits) := by
  simp only [outcomes, applyHits, slots, List.map_append]
  cases switch.defaultSlot <;> rfl

namespace LineRecord

variable (line : LineRecord)

/-- The slots of the outcomes of a line. -/
def branchSlots (line : LineRecord) : List Nat :=
  line.jumps.flatMap JumpRecord.slots ++ line.switches.flatMap SwitchRecord.slots

/-- The outcomes of a line get the counters of their slots. -/
theorem outcomes_applyHits (line : LineRecord) (hits : List UInt32) :
    (line.applyHits hits).outcomes = line.branchSlots.map (slotValue hits) := by
  simp only [outcomes, applyHits, branchSlots, List.map_append, List.map_flatMap,
    List.flatMap_map, SwitchRecord.outcomes_applyHits]
  rfl

theorem outcomeCount_applyHits (hits : List UInt32) :
    (line.applyHits hits).outcomeCount = line.outcomeCount := by
  simp only [outcomeCount, applyHits, List.length_map, List.foldl_map]
  rfl

theorem length_branchSlots : line.branchSlots.length = line.outcomeCount := by
  rw [branchSlots, outcomeCount, SwitchRecord.foldl_outcomeCount, List.length_append,
    JumpRecord.length_flatMap_slots]

/-- The counts of a line that has copied its counters. -/
theorem summary_applyHits (hits : List UInt32) :
    (line.applyHits hits).summary =
      { lines := 1
        linesCovered := if isHit hits line.slot then 1 else 0
        linesFull := if line.slots.all (isHit hits) then 1 else 0
        outcomes := line.branchSlots.length
        outcomesCovered := line.branchSlots.countP (isHit hits) } := by
  have hstatus : (line.applyHits hits).status =
      if isHit hits line.slot then
        if line.branchSlots.all (isHit hits) then .full else .partly
      else .uncovered := by
    rw [status, outcomes_applyHits, Status.ofCounts, List.all_map]
    by_cases hslot : slotValue hits line.slot = 0
    · simp [applyHits, isHit, hslot]
    · simp [applyHits, isHit, hslot, Function.comp_def]
  have hslots : line.slots.all (isHit hits) =
      (isHit hits line.slot && line.branchSlots.all (isHit hits)) := rfl
  rw [summary, hstatus, outcomeCount_applyHits, ← length_branchSlots, outcomes_applyHits,
    List.countP_map, hslots]
  cases isHit hits line.slot <;> cases line.branchSlots.all (isHit hits) <;> rfl

end LineRecord

/-! ## Classes -/

/-- The counts of lines, told from an array of counters. -/
def Summary.ofLines (hits : List UInt32) (lines : List LineRecord) : Summary where
  lines := lines.length
  linesCovered := lines.countP fun line => isHit hits line.slot
  linesFull := lines.countP fun line => line.slots.all (isHit hits)
  outcomes := (lines.flatMap LineRecord.branchSlots).length
  outcomesCovered := (lines.flatMap LineRecord.branchSlots).countP (isHit hits)

theorem Summary.ofLines_cons (hits : List UInt32) (line : LineRecord) (rest : List LineRecord) :
    Summary.ofLines hits (line :: rest) =
      (line.applyHits hits).summary.add (Summary.ofLines hits rest) := by
  rw [LineRecord.summary_applyHits]
  simp only [ofLines, add, List.countP_cons, List.flatMap_cons, List.length_append,
    List.length_cons, List.countP_append, Nat.add_comm]

namespace ClassRecord

/-- The slots of the outcomes of a class. -/
def branchSlots (record : ClassRecord) : List Nat :=
  record.lines.values.flatMap LineRecord.branchSlots

/-- The counts of a class that has copied its counters. -/
theorem summary_applyHits (record : ClassRecord) (hits : List UInt32) :
    (record.applyHits hits).summary = Summary.ofLines hits record.lines.values := by
  have hvalues : (record.applyHits hits).lines.values =
      record.lines.values.map fun line => line.applyHits hits := by
    simp only [applyHits, applyToLines, SortedMap.values, SortedMap.mapValues, List.map_map]
    rfl
  rw [summary, hvalues]
  induction record.lines.values with
  | nil => rfl
  | cons line rest ih =>
      rw [Summary.ofLines_cons, ← ih]
      rfl

end ClassRecord

/-! ## Several classes -/

/-- Counts added field by field. -/
def Summary.sum (summaries : List Summary) : Summary where
  lines := (summaries.map Summary.lines).sum
  linesCovered := (summaries.map Summary.linesCovered).sum
  linesFull := (summaries.map Summary.linesFull).sum
  outcomes := (summaries.map Summary.outcomes).sum
  outcomesCovered := (summaries.map Summary.outcomesCovered).sum

theorem Summary.foldr_add (summaries : List Summary) :
    summaries.foldr Summary.add {} = Summary.sum summaries := by
  induction summaries with
  | nil => rfl
  | cons s rest ih =>
      rw [List.foldr_cons, ih]
      simp only [sum, add, List.map_cons, List.sum_cons]

end BytecodeCoverage
