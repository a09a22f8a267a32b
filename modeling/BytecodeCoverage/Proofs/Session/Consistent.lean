import BytecodeCoverage.Proofs.Coverage.Consistent
import BytecodeCoverage.Proofs.Coverage.Union
import BytecodeCoverage.Proofs.Session.Slots
import BytecodeCoverage.Proofs.Session.Sound

/-!
# Snapshots whose counters are in step

A snapshot copies the array of a class into its record.  The copy is complete as long as the array
has no more counters than the class has slots, and that is so for a class that was instrumented
once: its array gets its length from the declaration of the slots, or was made empty before.

The registry may be shared with other sessions, as long as they leave the classes of this one
alone.

**Main definitions.**
* `Session.LeavesAlone`: what else may happen to the registry.
* `Session.SinglyInstrumented`: sessions that took in every class once.
* `Registry.Suits`: the invariant of a record and the registry.

**Results.**
* `Session.SinglyInstrumented.suits`: the invariant of the records of such a session.
* `Session.counters_in_step`: snapshots of such sessions, and merges.
-/

namespace BytecodeCoverage

open Machine

/-! ## Registries -/

namespace Registry

theorem length_counts (r : Registry) (className : String) :
    (r.tally className).counts.length = (r.hitsFor className).length := by
  rw [length_hitsFor, tally, counters?]
  cases r.lookup? className with
  | some hits => rfl
  | none => cases r.slotCount? className <;> simp

theorem used_startTest (r : Registry) : Used r { r with tracker := r.tracker.startTest } :=
  .of_lengths rfl (fun _ => rfl) fun className => by
    simp only [Tracker.startTest, Tracker.clearAll, Tracker.mask?, SortedMap.get?_mapValues,
      Option.map_map]
    exact congrArg (Option.map · (r.tracker.masks.get? className))
      (funext fun _ => List.length_map _)

/-- Every slot of the record has one owner, and the registry has no counters beyond them.  If the
class was not declared, the record needs none. -/
structure Suits (r : Registry) (record : ClassRecord) : Prop where
  partitioned : record.Partitioned
  room : (r.hitsFor record.name).length ≤ record.slotCount
  idle : r.slotCount? record.name = none → record.applyHits [] = record

end Registry

namespace Session

/-- The registry has, for the classes of the session, what the session's own registry has: as many
declared slots, and arrays of the same length. -/
def LeavesAlone (s : Session) (registry : Registry) : Prop :=
  ∀ name record, s.record? name = some record →
    registry.slotCount? name = s.registry.slotCount? name ∧
      (registry.hitsFor name).length = (s.registry.hitsFor name).length

/-- Sessions that took in every class once.  A class must be new to the registry too, which may
have been used before, and by others. -/
inductive SinglyInstrumented : Session → Prop
  | start (options : Options) (registry : Registry) : SinglyInstrumented { options, registry }
  | instrument {s : Session} (filters : List Filter) (cls : ClassFile) :
      SinglyInstrumented s → s.record? cls.name = none → s.registry.hitsFor cls.name = [] →
      SinglyInstrumented (s.instrument filters cls).2
  | use {s : Session} {registry : Registry} :
      SinglyInstrumented s → s.LeavesAlone registry → SinglyInstrumented { s with registry }

variable {s : Session}

/-! ## What happens to a session -/

theorem leavesAlone_of_used {registry : Registry} (h : s.registry.Used registry) :
    s.LeavesAlone registry :=
  fun name _ _ => ⟨h.slotCount? name, h.hits name⟩

theorem leavesAlone_declare {name : String} (h : s.record? name = none) (slots : Nat) :
    s.LeavesAlone (s.registry.declare name slots) := by
  intro other record hrecord
  have hother : other ≠ name := by
    rintro rfl
    rw [h] at hrecord
    cases hrecord
  rw [Registry.slotCount?_declare, if_neg hother, Registry.length_hitsFor_declare, if_neg hother]
  exact ⟨rfl, rfl⟩

theorem leavesAlone_register {record : ClassRecord} (h : s.record? record.name = none)
    {other : Session} (hshared : other.registry = s.registry) :
    s.LeavesAlone (other.register record).registry := by
  simp only [register, hshared]
  split
  · exact leavesAlone_declare h record.slotCount
  · exact leavesAlone_of_used (.refl _)

theorem cases_instrument (s : Session) (filters : List Filter) (cls : ClassFile) :
    (s.instrument filters cls).2 = s ∨
      ∃ scanned record laidOut meanings,
        cls.Made s.options filters scanned record laidOut meanings ∧
          (s.instrument filters cls).2 = s.register record := by
  have hgives := s.gives_instrument filters cls
  generalize s.instrument filters cls = result at hgives
  cases hgives with
  | marked | defective => exact .inl rfl
  | lineless hmade | probed hmade => exact .inr ⟨_, _, _, _, hmade, rfl⟩

namespace SinglyInstrumented

/-- A call of a method of an instrumented class. -/
theorem invoke (h : s.SinglyInstrumented) {m : Machine} (hm : m.world.registry = s.registry)
    (name descriptor : String) (args : List Int32) :
    SinglyInstrumented
      { s with registry := (m.invoke name descriptor args).2.world.registry } :=
  h.use (leavesAlone_of_used (hm ▸ m.used_invoke name descriptor args))

theorem reset (h : s.SinglyInstrumented) :
    SinglyInstrumented { s with registry := s.registry.reset } :=
  h.use (leavesAlone_of_used s.registry.cleared_reset.used)

theorem startTest (h : s.SinglyInstrumented) : s.startTest.SinglyInstrumented :=
  h.use (leavesAlone_of_used s.registry.used_startTest)

theorem endTest (h : s.SinglyInstrumented) (name : String) :
    (s.endTest name).2.SinglyInstrumented :=
  h.use (leavesAlone_of_used (s.registry.used_startTest.trans
    (.of_lengths rfl (fun _ => rfl) fun _ => rfl)))

/-- Another session with the same registry instruments a class that this one does not have. -/
theorem share (h : s.SinglyInstrumented) {other : Session} (hshared : other.registry = s.registry)
    (filters : List Filter) {cls : ClassFile} (hcls : s.record? cls.name = none) :
    SinglyInstrumented { s with registry := (other.instrument filters cls).2.registry } := by
  rcases other.cases_instrument filters cls with heq | ⟨_, record, _, _, hmade, heq⟩
  · rw [heq, hshared]
    exact h
  · rw [heq]
    exact h.use (leavesAlone_register (hmade.name_record ▸ hcls) hshared)

end SinglyInstrumented

/-! ## Records -/

/-- The record of a class that is new to the session and to the registry. -/
theorem suits_register {cls : ClassFile} {filters : List Filter} {scanned : List ScannedMethod}
    {record : ClassRecord} {laidOut : List (ScannedMethod × MethodSlots)}
    {meanings : List Occurrence}
    (hmade : cls.Made s.options filters scanned record laidOut meanings)
    (hnew : s.registry.hitsFor cls.name = []) : (s.register record).registry.Suits record := by
  have hlength := s.registry.length_hitsFor cls.name
  rw [hnew, List.length_nil] at hlength
  rw [← hmade.name_record] at hlength hnew
  cases hlines : record.lines.isEmpty with
  | true =>
      have hzero := hmade.slotCount_eq_zero hlines
      refine ⟨hmade.partitioned, ?_, fun _ => hmade.applyHits_nil hlines⟩
      simp [register, hzero, hnew]
  | false =>
      have hregistry := hmade.registry_register hlines s
      rw [← hmade.name_record] at hregistry
      refine ⟨hmade.partitioned, ?_, fun hnone => ?_⟩
      · rw [hregistry, Registry.length_hitsFor_declare, if_pos rfl]
        cases hmade : s.registry.lookup? record.name with
        | none => exact Nat.le_refl _
        | some hits =>
            rw [hmade] at hlength
            exact hlength ▸ Nat.zero_le _
      · rw [hregistry, Registry.slotCount?_declare, if_pos rfl] at hnone
        cases hnone

theorem suits_of_leavesAlone {registry : Registry} {record : ClassRecord}
    (h : s.registry.Suits record) (hrecord : s.record? record.name = some record)
    (halone : s.LeavesAlone registry) : registry.Suits record := by
  obtain ⟨hslots, hlength⟩ := halone record.name record hrecord
  exact ⟨h.partitioned, hlength ▸ h.room, hslots ▸ h.idle⟩

/-- Every record is stored under its name, and the registry suits it. -/
theorem SinglyInstrumented.suits (h : s.SinglyInstrumented) {name : String}
    {record : ClassRecord} (hrecord : s.record? name = some record) :
    record.name = name ∧ s.registry.Suits record := by
  induction h generalizing name record with
  | start => cases hrecord
  | use _ halone ih =>
      obtain ⟨rfl, hsuits⟩ := ih hrecord
      exact ⟨rfl, suits_of_leavesAlone hsuits hrecord halone⟩
  | @instrument s filters cls _ hfresh hnew ih =>
      rcases s.cases_instrument filters cls with heq | ⟨_, _, _, _, hmade, heq⟩
      · rw [heq] at hrecord ⊢
        exact ih hrecord
      · rw [heq] at hrecord ⊢
        rcases cases_record?_register hrecord with ⟨rfl, rfl⟩ | hrecord
        · exact ⟨rfl, suits_register hmade hnew⟩
        · obtain ⟨rfl, hsuits⟩ := ih hrecord
          have halone := leavesAlone_register (hmade.name_record ▸ hfresh) rfl
          exact ⟨rfl, suits_of_leavesAlone hsuits hrecord halone⟩

theorem consistent_filled {record : ClassRecord} (h : s.registry.Suits record) :
    (s.filled record).Consistent := by
  rw [s.filled_eq fun hcounters => h.idle ?_]
  · exact h.partitioned.consistent ((s.registry.length_counts record.name).trans_le h.room) _
  · unfold Registry.counters? at hcounters
    cases hmade : s.registry.lookup? record.name with
    | some hits => simp [hmade] at hcounters
    | none => simpa [hmade] using hcounters

theorem SinglyInstrumented.consistent_snapshot (h : s.SinglyInstrumented) :
    s.snapshot.Consistent := by
  intro name record hrecord
  rw [s.snapshot_eq fun name record hrecord => (h.suits hrecord).1] at hrecord
  obtain ⟨record, hknown, rfl⟩ := Option.map_eq_some_iff.1
    ((SortedMap.get?_mapValues s.records _ name).symm.trans hrecord)
  exact consistent_filled (h.suits hknown).2

/-- The snapshot of a session that took in every class once is consistent, and so is the merge of
consistent snapshots that draw the lines of each class from one layout with one owner for every
slot. -/
theorem counters_in_step :
    (∀ s : Session, s.SinglyInstrumented → s.snapshot.Consistent) ∧
      ∀ a b : Snapshot, a.Consistent → b.Consistent → a.SharesLayouts b →
        (a.merge b).Consistent :=
  ⟨fun _ => SinglyInstrumented.consistent_snapshot, fun _ _ => Snapshot.consistent_merge⟩

/-! ## A session after a call, and reports with different lines -/

theorem singlyInstrumented_sign :
    (({ options := {} } : Session).register Sign.laid.1).SinglyInstrumented := by
  have h := (SinglyInstrumented.start {} {}).instrument [] Sign.cls rfl rfl
  rwa [Sign.instrument_cls] at h

end Session

namespace Snapshot

theorem consistent_manyRuns : reportOfManyRuns.Consistent := by
  intro name record hrecord
  obtain ⟨⟩ := List.mem_singleton.1 (SortedMap.mem_entries.2 hrecord)
  exact .of_owned rfl (by decide)

theorem consistent_twoLines : reportOfTwoLines.Consistent := by
  intro name record hrecord
  obtain ⟨⟩ := List.mem_singleton.1 (SortedMap.mem_entries.2 hrecord)
  exact .of_owned rfl (by decide)

theorem sharesLayouts_manyRuns_twoLines : reportOfManyRuns.SharesLayouts reportOfTwoLines := by
  intro name record record' hrecord hrecord'
  obtain ⟨⟩ := List.mem_singleton.1 (SortedMap.mem_entries.2 hrecord)
  obtain ⟨⟩ := List.mem_singleton.1 (SortedMap.mem_entries.2 hrecord')
  refine ⟨_, ?_, fun number line hline => ?_, .refl _⟩
  · decide
  · obtain ⟨⟩ := List.mem_singleton.1 (SortedMap.mem_entries.2 hline)
    rfl

end Snapshot

/-- One call, and a merge of two reports, one of which has a line more and the other counters at
the greatest word. -/
theorem Session.counters_in_step_sign :
    ({ ({ options := {} } : Session).register Sign.laid.1 with
        registry := (Sign.machine.invoke "negative" "(I)I" [5]).2.world.registry } :
      Session).snapshot.Consistent ∧
    (Snapshot.reportOfManyRuns.merge Snapshot.reportOfTwoLines).Consistent :=
  ⟨counters_in_step.1 _ (singlyInstrumented_sign.invoke rfl "negative" "(I)I" [5]),
    counters_in_step.2 _ _ Snapshot.consistent_manyRuns Snapshot.consistent_twoLines
      Snapshot.sharesLayouts_manyRuns_twoLines⟩

end BytecodeCoverage
