import BytecodeCoverage.Proofs.Coverage.Totals
import BytecodeCoverage.Proofs.Session.Slots

/-!
# Summaries add up

The slots of the record that instrumenting a class makes are those of its lines and of the outcomes
of its branches, each of them once.  So the lines and the outcomes that a summary counts are as many
as there are slots, whatever the counters are.

**Main definitions.**
* `Summary.Counts`: what a summary says of a record and its counters.

**Results.**
* `Session.exists_made_of_instrument`: the record of a class without defects.
* `ClassRecord.Partitioned.counts`: the summary of a record in which every slot has one owner.
* `Session.summary_of_instrument`: the summaries of instrumented classes and of snapshots.
-/

namespace BytecodeCoverage

/-! ## Records whose slots have one owner -/

/-- The summary of a record with an array of counters.  A line is covered if its own counter is not
zero, and full if no counter of its slots is. -/
structure Summary.Counts (summary : Summary) (record : ClassRecord) (hits : List UInt32) : Prop where
  total : summary.lines + summary.outcomes = record.slotCount
  linesFull_le : summary.linesFull ≤ summary.linesCovered
  linesCovered_le : summary.linesCovered ≤ summary.lines
  outcomesCovered_le : summary.outcomesCovered ≤ summary.outcomes
  linesCovered : summary.linesCovered =
    record.lines.values.countP fun line => slotValue hits line.slot ≠ 0
  outcomesCovered : summary.outcomesCovered =
    record.branchSlots.countP fun slot => slotValue hits slot ≠ 0
  linesFull : summary.linesFull =
    record.lines.values.countP fun line => ∀ slot ∈ line.slots, slotValue hits slot ≠ 0

/-- A slot belongs to a line or to an outcome. -/
theorem ClassRecord.length_slots (record : ClassRecord) :
    record.slots.length = record.lines.values.length + record.branchSlots.length := by
  rw [slots, branchSlots]
  induction record.lines.values with
  | nil => rfl
  | cons line rest ih =>
      have hline : line.slots.length = 1 + line.branchSlots.length := Nat.add_comm _ 1
      rw [List.flatMap_cons, List.flatMap_cons, List.length_append, List.length_append, ih, hline,
        List.length_cons]
      omega

theorem ClassRecord.Partitioned.counts {record : ClassRecord} (h : record.Partitioned)
    (hits : List UInt32) : (record.applyHits hits).summary.Counts record hits := by
  rw [record.summary_applyHits hits]
  refine ⟨?_, ?_, List.countP_le_length, List.countP_le_length, ?_, ?_, ?_⟩
  · calc
      record.lines.values.length + record.branchSlots.length = record.slots.length :=
        record.length_slots.symm
      _ = record.slotCount := h.length_eq.trans List.length_range
  · refine List.countP_mono_left fun line _ hfull => ?_
    exact List.all_eq_true.1 hfull line.slot List.mem_cons_self
  · exact List.countP_congr fun line _ => by simp [isHit]
  · exact List.countP_congr fun slot _ => by simp [isHit]
  · exact List.countP_congr fun line _ => by simp [isHit]

/-! ## Instrumented classes -/

namespace Session

variable {s s' : Session} {filters : List Filter} {cls : ClassFile} {outcome : Instrumented}

/-- A class that is neither refused nor defective gets a record, whether it gets probes or not. -/
theorem exists_made_of_instrument (h : s.instrument filters cls = (outcome, s'))
    (hmade : (∃ cls', outcome = .probed cls') ∨ outcome = .skipped .noExecutableCode) :
    ∃ scanned record laidOut meanings,
      cls.Made s.options filters scanned record laidOut meanings ∧ s' = s.register record := by
  have hgives := s.gives_instrument filters cls
  rw [h] at hgives
  cases hgives with
  | marked | defective => simp at hmade
  | lineless hrecord | probed hrecord => exact ⟨_, _, _, _, hrecord, rfl⟩

/-- The summary of the record that instrumenting a class makes, with any array of counters: lines
and outcomes are as many as slots, those covered are the ones whose counter is not zero, and the
full lines are those without a counter that is zero.  The summary of a snapshot is the sum of the
summaries of its classes, field by field. -/
theorem summary_of_instrument (h : s.instrument filters cls = (outcome, s'))
    (hmade : (∃ cls', outcome = .probed cls') ∨ outcome = .skipped .noExecutableCode) :
    (∃ record, s'.record? cls.name = some record ∧
      ∀ hits : List UInt32, (record.applyHits hits).summary.Counts record hits) ∧
    ∀ snapshot : Snapshot,
      snapshot.summary = Summary.sum (snapshot.classes.values.map ClassRecord.summary) := by
  obtain ⟨scanned, record, laidOut, meanings, hmade, rfl⟩ := exists_made_of_instrument h hmade
  refine ⟨⟨record, ?_, hmade.partitioned.counts⟩, fun snapshot => Summary.foldr_add _⟩
  rw [Session.record?, Session.register, hmade.name_record, SortedMap.get?_insert_self]

/-- The method has run once and the jump was taken: one of three slots has no counter. -/
theorem summary_of_instrument_sign :
    (∃ cls', Instrumented.probed Sign.probed = .probed cls') ∧
    ∃ record, (({ options := {} } : Session).register Sign.laid.1).record? "demo/Sign" =
        some record ∧
      (record.applyHits [1, 1, 0]).summary = ⟨1, 1, 0, 2, 1⟩ ∧
      (record.applyHits [1, 1, 0]).summary.Counts record [1, 1, 0] := by
  have hprobed : ∃ cls', Instrumented.probed Sign.probed = .probed cls' := ⟨_, rfl⟩
  obtain ⟨⟨record, hrecord, hcounts⟩, -⟩ := summary_of_instrument Sign.instrument_cls (.inl hprobed)
  have hsame : (({ options := {} } : Session).register Sign.laid.1).record? "demo/Sign" =
      some Sign.laid.1 := rfl
  obtain rfl := Option.some.inj (hsame.symm.trans hrecord)
  exact ⟨hprobed, _, hrecord, by with_unfolding_all rfl, hcounts [1, 1, 0]⟩

end Session

end BytecodeCoverage
