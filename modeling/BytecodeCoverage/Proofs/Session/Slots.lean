import BytecodeCoverage.Proofs.Probe.Partition
import BytecodeCoverage.Proofs.Session.Behaviour

/-!
# The slots of an instrumented class

The methods of a class share its slots.  A line that several methods have is counted in one slot;
anything else that a method counts has a slot to itself.

**Results.**
* `ClassFile.partitioned_layOut`: laying out methods gives every slot one owner.
* `Session.slots_of_probed`: the slots of a class that gets probes.
-/

namespace BytecodeCoverage

namespace ClassFile

theorem partitioned_layOut (count : Bool) (scanned : List ScannedMethod) {record : ClassRecord}
    (h : record.Partitioned) : (layOut count scanned record).1.Partitioned := by
  induction scanned generalizing record with
  | nil => exact h
  | cons m rest ih => exact ih (h.assign m.signature m.scan count)

namespace Made

variable {cls : ClassFile} {options : Options} {filters : List Filter}
  {scanned : List ScannedMethod} {record : ClassRecord}
  {laidOut : List (ScannedMethod × MethodSlots)} {meanings : List Occurrence}

theorem partitioned (h : cls.Made options filters scanned record laidOut meanings) :
    record.Partitioned := by
  have hblank : cls.blankRecord.Partitioned := .of_empty rfl rfl
  have hlaid := partitioned_layOut options.instructions scanned hblank
  rw [h.layOut] at hlaid
  exact hlaid

/-- The line of a kept entry has its record. -/
theorem mem_keys (h : cls.Made options filters scanned record laidOut meanings)
    {m : ScannedMethod} (hm : m ∈ scanned) {kept : Kept} (hkept : kept ∈ m.scan.kept) :
    kept.number ∈ record.lines.keys := by
  have hentry : (m.index, kept) ∈ entriesOf scanned :=
    List.mem_flatMap.2 ⟨m, hm, List.mem_map_of_mem hkept⟩
  obtain ⟨line, hline⟩ := Option.isSome_iff_exists.1 (h.layout.known _ hentry)
  exact List.mem_map.2 ⟨_, SortedMap.mem_entries.2 hline, rfl⟩

/-- Methods that are laid out are told apart by their places. -/
theorem eq_of_index_eq (h : cls.Made options filters scanned record laidOut meanings)
    {e e' : ScannedMethod × MethodSlots} (he : e ∈ laidOut) (he' : e' ∈ laidOut) :
    e.1.index = e'.1.index ↔ e = e' :=
  ⟨List.inj_on_of_nodup_map h.methods.distinct he he', fun heq => heq ▸ rfl⟩

/-- Two sites share a slot if they are the same site of one method, or the same line. -/
theorem slot_eq_iff (h : cls.Made options filters scanned record laidOut meanings)
    {e e' : ScannedMethod × MethodSlots} (he : e ∈ laidOut) (he' : e' ∈ laidOut)
    {site site' : ProbeSite} {slot slot' : Nat} (hslot : e.2.slot? site = some slot)
    (hslot' : e'.2.slot? site' = some slot') :
    slot = slot' ↔ site = site' ∧ (e = e' ∨ ∃ number, site = .line number) := by
  have hmeaning := (h.fits e he).sound site slot hslot
  have hmeaning' := (h.fits e' he').sound site' slot' hslot'
  rw [← h.eq_of_index_eq he he', ← ProbeSite.occurrence_eq_iff]
  constructor
  · rintro rfl
    exact Option.some.inj (hmeaning.symm.trans hmeaning')
  · intro heq
    rw [heq] at hmeaning
    exact h.layout.slot_inj hmeaning hmeaning'

end Made

end ClassFile

/-- In the record of a class that gets probes, the slots of all lines and outcomes are the numbers
below the number of slots, each of them once, and each line has one record.  Every site of what was
kept has a slot, and different sites have different slots, the same line in several methods
excepted. -/
theorem Session.slots_of_probed {s s' : Session} {filters : List Filter} {cls cls' : ClassFile}
    (h : s.instrument filters cls = (.probed cls', s')) :
    ∃ scanned record laidOut,
      cls.scanAll s.options filters = .ok scanned ∧
      ClassFile.layOut s.options.instructions scanned cls.blankRecord = (record, laidOut) ∧
      laidOut.map Prod.fst = scanned ∧
      s'.record? cls.name = some record ∧
      record.slots.Perm (List.range record.slotCount) ∧
      record.lines.keys.Nodup ∧
      (∀ m ∈ scanned, ∀ kept ∈ m.scan.kept, kept.number ∈ record.lines.keys) ∧
      (∀ e ∈ laidOut, ∀ kept ∈ e.1.scan.kept, ∀ site ∈ kept.sites,
        ∃ slot < record.slotCount, e.2.slot? site = some slot) ∧
      ∀ e ∈ laidOut, ∀ e' ∈ laidOut, ∀ site site' slot slot',
        e.2.slot? site = some slot → e'.2.slot? site' = some slot' →
        (slot = slot' ↔ site = site' ∧ (e = e' ∨ ∃ number, site = .line number)) := by
  obtain ⟨scanned, record, laidOut, meanings, hmade, -, -, rfl⟩ := exists_of_probed h
  refine ⟨scanned, record, laidOut, hmade.scan, hmade.layOut, hmade.listed, ?_, hmade.partitioned,
    record.lines.nodup_keys, fun m hm kept => hmade.mem_keys hm, ?_,
    fun e he e' he' site site' slot slot' => hmade.slot_eq_iff he he'⟩
  · rw [Session.record?, Session.register, hmade.name_record, SortedMap.get?_insert_self]
  · intro e he kept hkept site hsite
    obtain ⟨slot, hslot⟩ :=
      Option.isSome_iff_exists.1 ((hmade.fits e he).isSome_of_mem_sites hkept hsite)
    exact ⟨slot, hmade.slot_lt he hslot, hslot⟩

/-- Three slots for the line and the outcomes of the jump. -/
theorem Session.slots_of_probed_sign :
    ∃ record, (({ options := {} } : Session).register Sign.laid.1).record? "demo/Sign" =
        some record ∧ record.slotCount = 3 ∧ record.slots.Perm (List.range 3) := by
  obtain ⟨_, record, _, -, -, -, hrecord, hperm, -⟩ := slots_of_probed Sign.instrument_cls
  have hsame : (({ options := {} } : Session).register Sign.laid.1).record? "demo/Sign" =
      some Sign.laid.1 := rfl
  obtain rfl := Option.some.inj (hsame.symm.trans hrecord)
  exact ⟨_, hrecord, rfl, hperm⟩

end BytecodeCoverage
