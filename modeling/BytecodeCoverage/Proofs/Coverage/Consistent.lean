import BytecodeCoverage.Proofs.Coverage.MergeLaws
import BytecodeCoverage.Proofs.Probe.Partition
import Mathlib.Data.List.Pairwise

/-!
# Records and arrays of counters

A class has every counter twice: in its array, and in the record of the line or outcome that owns
the slot.  A merge adds the arrays slot by slot and the records line by line.  The two stay in step
if the lines of both sides come from one layout in which every slot has one owner.  What only one
side has is then counted in slots that are zero in the other side's array.

**Main definitions.**
* `ClassRecord.Consistent`: the counters in the records are those in the array.
* `LineRecord.blank`: what the layout of a class says of a line.
* `ClassRecord.DrawnFrom`: a record with some of the lines of a layout.

**Results.**
* `LineRecord.merge_eq_of_blank`: merging two records of one line.
* `ClassRecord.Partitioned.consistent`: a record that has read its counters.
* `ClassRecord.Consistent.merge`, `Snapshot.consistent_merge`: merges of consistent records.
-/

namespace BytecodeCoverage

/-! ## Lines -/

namespace LineRecord

/-- The line without counters, and without what is known of its method. -/
def blank (line : LineRecord) : LineRecord :=
  { line.applyHits [] with method := "", instructions := none }

/-- Counters of a line are read anew whatever they were. -/
theorem applyHits_applyHits (line : LineRecord) (hits hits' : List UInt32) :
    (line.applyHits hits).applyHits hits' = line.applyHits hits' := by
  simp only [applyHits, List.map_map]
  rfl

theorem applyHits_blank (line : LineRecord) (hits : List UInt32) :
    line.blank.applyHits hits =
      { line.applyHits hits with method := "", instructions := none } :=
  congrArg (fun line : LineRecord => { line with method := "", instructions := none })
    (line.applyHits_applyHits [] hits)

theorem slots_applyHits (line : LineRecord) (hits : List UInt32) :
    (line.applyHits hits).slots = line.slots := by
  simp only [slots, applyHits, List.flatMap_map]
  rfl

theorem slots_blank (line : LineRecord) : line.blank.slots = line.slots :=
  line.slots_applyHits []

/-- Reading counters depends on the slots of the line only. -/
theorem applyHits_congr {line : LineRecord} {hits hits' : List UInt32}
    (h : ∀ slot ∈ line.slots, slotValue hits slot = slotValue hits' slot) :
    line.applyHits hits = line.applyHits hits' := by
  simp only [slots, List.mem_cons, List.mem_append, List.mem_flatMap] at h
  have hjumps : line.jumps.map (JumpRecord.applyHits hits) =
      line.jumps.map (JumpRecord.applyHits hits') := by
    refine List.map_congr_left fun jump hjump => ?_
    have hjump := fun slot hslot => h slot (.inr (.inl ⟨jump, hjump, hslot⟩))
    simp only [JumpRecord.applyHits, hjump jump.takenSlot (by simp [JumpRecord.slots]),
      hjump jump.notTakenSlot (by simp [JumpRecord.slots])]
  have hswitches : line.switches.map (SwitchRecord.applyHits hits) =
      line.switches.map (SwitchRecord.applyHits hits') := by
    refine List.map_congr_left fun switch hswitch => ?_
    have hswitch := fun slot hslot => h slot (.inr (.inr ⟨switch, hswitch, hslot⟩))
    simp only [SwitchRecord.slots, List.mem_append, Option.mem_toList] at hswitch
    have hkeys : switch.keySlots.map (slotValue hits) = switch.keySlots.map (slotValue hits') :=
      List.map_congr_left fun slot hslot => hswitch slot (.inl hslot)
    cases hdefault : switch.defaultSlot with
    | none => simp only [SwitchRecord.applyHits, hkeys, hdefault]
    | some slot =>
        simp only [SwitchRecord.applyHits, hkeys, hdefault, hswitch slot (.inr hdefault)]
  simp only [applyHits, hjumps, hswitches, h line.slot (.inl rfl)]

variable {a b : LineRecord} {hits hits' : List UInt32}

/-- Two records of one line, with their counters from two arrays, merge to the record with the
sums. -/
theorem merge_eq_of_blank (h : a.blank = b.blank) (ha : a.applyHits hits = a)
    (hb : b.applyHits hits' = b) :
    a.merge b =
      { a.applyHits (zipLongest satAdd hits hits') with
        method := lesser a.method b.method
        instructions := joinOption max a.instructions b.instructions } := by
  have hread := congrArg (applyHits hits') h
  rw [applyHits_blank, applyHits_blank, hb] at hread
  have hother : { a.applyHits hits' with method := b.method, instructions := b.instructions } = b :=
    congrArg (fun line => { line with method := b.method, instructions := b.instructions }) hread
  have hmerge := a.merge_applyHits hits hits'
  rw [ha] at hmerge
  calc a.merge b
      = a.merge { a.applyHits hits' with
          method := b.method, instructions := b.instructions } := by rw [hother]
    _ = { a.merge (a.applyHits hits') with
          method := lesser a.method b.method
          instructions := joinOption max a.instructions b.instructions } := rfl
    _ = _ := by rw [hmerge]

theorem applyHits_merge (h : a.blank = b.blank) (ha : a.applyHits hits = a)
    (hb : b.applyHits hits' = b) :
    (a.merge b).applyHits (zipLongest satAdd hits hits') = a.merge b := by
  rw [merge_eq_of_blank h ha hb]
  exact congrArg (fun line : LineRecord => { line with
    method := lesser a.method b.method
    instructions := joinOption max a.instructions b.instructions })
    (a.applyHits_applyHits _ _)

theorem slots_merge (h : a.blank = b.blank) (ha : a.applyHits hits = a)
    (hb : b.applyHits hits' = b) : (a.merge b).slots = a.slots := by
  rw [merge_eq_of_blank h ha hb]
  exact a.slots_applyHits _

end LineRecord

/-! ## Classes -/

namespace ClassRecord

/-- Reading the counters from the array changes nothing, and slots without owner are zero. -/
structure Consistent (record : ClassRecord) : Prop where
  reads : record.applyHits record.hits = record
  unowned : ∀ slot, slot ∉ record.slots → slotValue record.hits slot = 0

/-- The lines of the record are lines of the layout, apart from their counters and methods. -/
def DrawnFrom (record layout : ClassRecord) : Prop :=
  ∀ number line, record.line? number = some line →
    (layout.line? number).map LineRecord.blank = some line.blank

variable {record record' layout : ClassRecord} {number : UInt32} {line : LineRecord}

theorem DrawnFrom.refl (record : ClassRecord) : record.DrawnFrom record :=
  fun _ _ hline => congrArg (Option.map LineRecord.blank) hline

theorem mem_slots_iff {slot : Nat} :
    slot ∈ record.slots ↔ ∃ number line, record.line? number = some line ∧ slot ∈ line.slots := by
  simp only [slots, SortedMap.values, List.mem_flatMap, List.mem_map, Prod.exists]
  constructor
  · rintro ⟨line, ⟨number, _, hentry, rfl⟩, hslot⟩
    exact ⟨number, _, SortedMap.mem_entries.1 hentry, hslot⟩
  · rintro ⟨number, line, hline, hslot⟩
    exact ⟨line, ⟨number, line, SortedMap.mem_entries.2 hline, rfl⟩, hslot⟩

theorem applyHits_eq_self_iff : record.applyHits record.hits = record ↔
    ∀ number line, record.line? number = some line → line.applyHits record.hits = line := by
  have hget : ∀ number, (record.applyHits record.hits).line? number =
      (record.line? number).map (LineRecord.applyHits record.hits) := fun number =>
    SortedMap.get?_mapValues record.lines _ number
  constructor
  · intro h number line hline
    have hsame := hget number
    rw [h, hline] at hsame
    exact (Option.some.inj hsame).symm
  · intro h
    have hlines : (record.applyHits record.hits).lines = record.lines := by
      refine SortedMap.ext fun number => (hget number).trans ?_
      cases hline : record.line? number with
      | none => exact hline.symm
      | some line =>
          rw [Option.map_some, h number line hline]
          exact hline.symm
    exact congrArg (fun lines => { record with lines }) hlines

theorem Consistent.applyHits_line (h : record.Consistent)
    (hline : record.line? number = some line) : line.applyHits record.hits = line :=
  applyHits_eq_self_iff.1 h.reads number line hline

/-- A slot of a layout has one line. -/
theorem eq_of_mem_slots (h : layout.slots.Nodup) {number' : UInt32} {line' : LineRecord}
    (hline : layout.line? number = some line) (hline' : layout.line? number' = some line')
    {slot : Nat} (hslot : slot ∈ line.slots) (hslot' : slot ∈ line'.slots) :
    number = number' := by
  by_contra hne
  rw [slots_of_entries rfl, List.nodup_flatMap] at h
  have hsymm : Std.Symm (Function.onFun List.Disjoint fun e : UInt32 × LineRecord => e.2.slots) :=
    ⟨fun _ _ hdisjoint => hdisjoint.symm⟩
  have hdisjoint := h.2.forall (SortedMap.mem_entries.2 hline) (SortedMap.mem_entries.2 hline')
    fun heq => hne (congrArg Prod.fst heq)
  exact hdisjoint hslot hslot'

/-- A slot of a line that the other record does not have is owned by none of its lines. -/
theorem DrawnFrom.unowned (h : record.DrawnFrom layout) (h' : record'.DrawnFrom layout)
    (hlayout : layout.slots.Nodup) (hline : record.line? number = some line)
    (hline' : record'.line? number = none) {slot : Nat} (hslot : slot ∈ line.slots) :
    slot ∉ record'.slots := by
  intro hmem
  obtain ⟨number', line', hother, hslot'⟩ := mem_slots_iff.1 hmem
  obtain ⟨laid, hlaid, hblank⟩ := Option.map_eq_some_iff.1 (h number line hline)
  obtain ⟨laid', hlaid', hblank'⟩ := Option.map_eq_some_iff.1 (h' number' line' hother)
  have hlaidSlot : slot ∈ laid.slots := by
    rwa [← laid.slots_blank, hblank, line.slots_blank]
  have hlaidSlot' : slot ∈ laid'.slots := by
    rwa [← laid'.slots_blank, hblank', line'.slots_blank]
  have hnumber := eq_of_mem_slots hlayout hlaid hlaid' hlaidSlot hlaidSlot'
  rw [← hnumber, hline'] at hother
  cases hother

theorem DrawnFrom.blank_eq (h : record.DrawnFrom layout) (h' : record'.DrawnFrom layout)
    {line' : LineRecord} (hline : record.line? number = some line)
    (hline' : record'.line? number = some line') : line.blank = line'.blank :=
  Option.some.inj ((h number line hline).symm.trans (h' number line' hline'))

/-- Beyond the end of the array all slots count as zero. -/
theorem Consistent.of_owned (hreads : record.applyHits record.hits = record)
    (howned : ∀ slot < record.hits.length, slot ∈ record.slots) : record.Consistent where
  reads := hreads
  unowned slot hslot :=
    have hend : record.hits.length ≤ slot := Nat.not_lt.1 (mt (howned slot) hslot)
    congrArg (Option.getD · 0) (List.getElem?_eq_none hend)

theorem slots_applyToLines (record : ClassRecord) (hits : List UInt32) :
    (record.applyToLines hits).slots = record.slots := by
  simp only [slots, SortedMap.values, applyToLines, SortedMap.mapValues, List.flatMap_map,
    LineRecord.slots_applyHits]

/-- A record that has just read its counters is consistent if there are no more counters than
slots. -/
theorem Partitioned.consistent (h : record.Partitioned) {hits : List UInt32}
    (hlength : hits.length ≤ record.slotCount) (trace : Option (List Bool)) :
    ({ record.applyHits hits with trace } : ClassRecord).Consistent := by
  have hslots : ({ record.applyHits hits with trace } : ClassRecord).slots = record.slots :=
    record.slots_applyToLines hits
  refine .of_owned (applyHits_eq_self_iff.2 fun number line hline => ?_) fun slot hslot => ?_
  · obtain ⟨line, -, rfl⟩ := Option.map_eq_some_iff.1
      ((SortedMap.get?_mapValues record.lines _ number).symm.trans hline)
    exact line.applyHits_applyHits hits hits
  · rw [hslots, h.mem_iff, List.mem_range]
    exact hslot.trans_le hlength

namespace Consistent

variable (hrecord : record.Consistent) (hrecord' : record'.Consistent)
  (hlayout : layout.slots.Nodup) (h : record.DrawnFrom layout) (h' : record'.DrawnFrom layout)

include hrecord hrecord' h h'

/-- Slots with an owner on either side have one in the merge. -/
theorem mem_slots_mergeParts {slot : Nat} (hslot : slot ∈ record.slots ∨ slot ∈ record'.slots) :
    slot ∈ (record.mergeParts record').slots := by
  have hboth : ∀ number line line', record.line? number = some line →
      record'.line? number = some line' →
        (line.merge line').slots = line.slots ∧ line.slots = line'.slots := by
    intro number line line' hline hline'
    have hblank := h.blank_eq h' hline hline'
    refine ⟨LineRecord.slots_merge hblank (hrecord.applyHits_line hline)
      (hrecord'.applyHits_line hline'), ?_⟩
    rw [← line.slots_blank, hblank, line'.slots_blank]
  rcases hslot with hslot | hslot
  · obtain ⟨number, line, hline, hslot⟩ := mem_slots_iff.1 hslot
    refine mem_slots_iff.2 ⟨number, ?_⟩
    rw [line?_mergeParts, hline]
    cases hline' : record'.line? number with
    | none => exact ⟨line, rfl, hslot⟩
    | some line' => exact ⟨_, rfl, (hboth number line line' hline hline').1 ▸ hslot⟩
  · obtain ⟨number, line', hline', hslot⟩ := mem_slots_iff.1 hslot
    refine mem_slots_iff.2 ⟨number, ?_⟩
    rw [line?_mergeParts, hline']
    cases hline : record.line? number with
    | none => exact ⟨line', rfl, hslot⟩
    | some line =>
        obtain ⟨hmerge, hsame⟩ := hboth number line line' hline hline'
        exact ⟨_, rfl, hmerge.trans hsame ▸ hslot⟩

include hlayout

theorem mergeParts : (record.mergeParts record').Consistent where
  reads := by
    refine applyHits_eq_self_iff.2 fun number line hline => ?_
    rw [line?_mergeParts] at hline
    cases ha : record.line? number with
    | none =>
        have hb : record'.line? number = some line := by simpa [ha, joinOption] using hline
        refine Eq.trans (LineRecord.applyHits_congr fun slot hslot => ?_)
          (hrecord'.applyHits_line hb)
        have hzero := hrecord.unowned slot (h'.unowned h hlayout hb ha hslot)
        rw [ClassRecord.mergeParts, slotValue_zipLongest, hzero, satAdd_comm, satAdd_zero]
    | some first =>
        cases hb : record'.line? number with
        | none =>
            obtain rfl : first = line := by simpa [ha, hb, joinOption] using hline
            refine Eq.trans (LineRecord.applyHits_congr fun slot hslot => ?_)
              (hrecord.applyHits_line ha)
            have hzero := hrecord'.unowned slot (h.unowned h' hlayout ha hb hslot)
            rw [ClassRecord.mergeParts, slotValue_zipLongest, hzero, satAdd_zero]
        | some second =>
            obtain rfl : first.merge second = line := by simpa [ha, hb, joinOption] using hline
            exact LineRecord.applyHits_merge (h.blank_eq h' ha hb) (hrecord.applyHits_line ha)
              (hrecord'.applyHits_line hb)
  unowned slot hslot := by
    have hnone := mt (mem_slots_mergeParts hrecord hrecord' h h') hslot
    rw [not_or] at hnone
    rw [ClassRecord.mergeParts, slotValue_zipLongest, hrecord.unowned slot hnone.1,
      hrecord'.unowned slot hnone.2, satAdd_zero]

theorem merge : (record.merge record').Consistent := by
  cases ha : record.contributes <;> cases hb : record'.contributes
  case false.true => rwa [merge_right ha hb]
  case true.false => rwa [merge_left ha hb]
  all_goals
    rw [merge_parts (ha.trans hb.symm)]
    exact hrecord.mergeParts hrecord' hlayout h h'

end Consistent

end ClassRecord

/-! ## Snapshots -/

namespace Snapshot

/-- Every class is consistent. -/
def Consistent (s : Snapshot) : Prop :=
  ∀ name record, s.class? name = some record → record.Consistent

/-- The records of each class that both snapshots have are drawn from one layout, in which every
slot has one owner. -/
def SharesLayouts (a b : Snapshot) : Prop :=
  ∀ name record record', a.class? name = some record → b.class? name = some record' →
    ∃ layout : ClassRecord, layout.slots.Nodup ∧ record.DrawnFrom layout ∧
      record'.DrawnFrom layout

theorem consistent_merge {a b : Snapshot} (ha : a.Consistent) (hb : b.Consistent)
    (h : a.SharesLayouts b) : (a.merge b).Consistent := by
  intro name record hrecord
  rw [class?_merge] at hrecord
  cases hfirst : a.class? name with
  | none => exact hb name record (by simpa [hfirst, joinOption] using hrecord)
  | some first =>
      cases hsecond : b.class? name with
      | none =>
          obtain rfl : first = record := by simpa [hfirst, hsecond, joinOption] using hrecord
          exact ha name first hfirst
      | some second =>
          obtain rfl : first.merge second = record := by
            simpa [hfirst, hsecond, joinOption] using hrecord
          obtain ⟨layout, hlayout, hdrawn, hdrawn'⟩ := h name first second hfirst hsecond
          exact (ha name first hfirst).merge (hb name second hsecond) hlayout hdrawn hdrawn'

end Snapshot

end BytecodeCoverage
