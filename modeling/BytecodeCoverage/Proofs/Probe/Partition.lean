import BytecodeCoverage.Proofs.Probe.Assign
import BytecodeCoverage.Proofs.SortedMap

/-!
# Slots have one owner

The slots of a class are numbered from zero on.  A slot is handed out together with the line or the
outcome that owns it: a line gets its slot when its record is made, and the outcomes of a branch get
theirs when the branch is added to the record of its line.  So the slots of all lines and outcomes
are always the numbers below the number of slots, each of them once.

**Main definitions.**
* `ClassRecord.slots`: the slots of all lines and of their outcomes.
* `ClassRecord.Partitioned`: every slot of the record has one owner.
* `Kept.sites`: the probe sites of a kept entry.

**Results.**
* `ClassRecord.Partitioned.assignKept`, `ClassRecord.Partitioned.assign`: handing out slots.
* `MethodSlots.Fits.isSome_of_mem_sites`: every site of a kept entry has a slot.
* `ProbeSite.occurrence_eq_iff`: sites that stand for the same.
-/

namespace BytecodeCoverage

/-! ## Owners -/

namespace ClassRecord

/-- The slots of all lines and of their outcomes, line by line. -/
def slots (record : ClassRecord) : List Nat :=
  record.lines.values.flatMap LineRecord.slots

/-- Every slot of the record is owned by one line or one outcome, and by no other. -/
def Partitioned (record : ClassRecord) : Prop :=
  record.slots.Perm (List.range record.slotCount)

variable {record : ClassRecord} {number : UInt32} {line : LineRecord}

theorem slots_of_entries {entries : List (UInt32 × LineRecord)}
    (h : record.lines.entries = entries) :
    record.slots = entries.flatMap fun e => e.2.slots := by
  rw [slots, SortedMap.values, h, List.flatMap_map]

variable (record) in
theorem slots_insertLine (hline : record.line? number = none) (line : LineRecord) :
    (record.insertLine number line).slots.Perm (record.slots ++ line.slots) := by
  obtain ⟨before, after, hentries, hinsert⟩ := SortedMap.insertEntry_of_findEntry_none line hline
  have hnew : (record.insertLine number line).lines.entries = _ := hinsert
  rw [slots_of_entries hnew, slots_of_entries hentries, List.flatMap_append, List.flatMap_append,
    List.flatMap_cons, List.append_assoc]
  exact List.perm_append_comm.append_left _

variable (record) in
theorem slots_modifyLine (hline : record.line? number = some line)
    {f : LineRecord → LineRecord} {more : List Nat} (hf : (f line).slots.Perm (line.slots ++ more)) :
    (record.modifyLine number f).slots.Perm (record.slots ++ more) := by
  obtain ⟨before, after, hentries, hinsert⟩ :=
    SortedMap.insertEntry_of_findEntry_some (f line) record.lines.ascending hline
  have hnew : (record.insertLine number (f line)).lines.entries = _ := hinsert
  simp only [modifyLine, hline]
  rw [slots_of_entries hnew, slots_of_entries hentries, List.flatMap_append, List.flatMap_append,
    List.flatMap_cons, List.flatMap_cons, List.append_assoc, List.append_assoc]
  refine List.Perm.append_left _ ((hf.append_right _).trans ?_)
  rw [List.append_assoc]
  exact List.perm_append_comm.append_left _

theorem line?_lineOrInsert (record : ClassRecord) (number : UInt32) (signature : String) :
    (record.lineOrInsert number signature).2.line? number =
      some (record.lineOrInsert number signature).1 := by
  unfold lineOrInsert
  cases hline : record.line? number with
  | some line => exact hline
  | none => rw [line?_insertLine, if_pos rfl]

end ClassRecord

namespace LineRecord

theorem slots_addJump (line : LineRecord) (jump : JumpRecord) :
    { line with jumps := line.jumps ++ [jump] }.slots.Perm (line.slots ++ jump.slots) := by
  simp only [slots, List.flatMap_append, List.flatMap_singleton, List.cons_append,
    List.append_assoc]
  exact (List.perm_append_comm.append_left _).cons _

theorem slots_addSwitch (line : LineRecord) (switch : SwitchRecord) :
    { line with switches := line.switches ++ [switch] }.slots = line.slots ++ switch.slots := by
  simp only [slots, List.flatMap_append, List.flatMap_singleton, List.cons_append,
    List.append_assoc]

end LineRecord

/-! ## Handing out slots -/

namespace ClassRecord.Partitioned

variable {record record' : ClassRecord} {line : LineRecord}

theorem of_empty (hlines : record.lines = .empty) (hcount : record.slotCount = 0) :
    record.Partitioned := by
  rw [Partitioned, slots, hlines, hcount]
  exact .nil

/-- The next slots get their owners. -/
theorem grow (h : record.Partitioned) {n : Nat}
    (hslots : record'.slots.Perm (record.slots ++ List.range' record.slotCount n))
    (hcount : record'.slotCount = record.slotCount + n) : record'.Partitioned := by
  refine hslots.trans ((h.append_right _).trans ?_)
  rw [hcount, List.range_eq_range', List.range_eq_range', ← List.range'_append_1, Nat.zero_add]

/-- A line is added with the next slot. -/
theorem addLine (h : record.Partitioned) {number : UInt32} (hline : record.line? number = none)
    (method : String) :
    (({ record with slotCount := record.slotCount + 1 } : ClassRecord).insertLine number
      { method, slot := record.slotCount }).Partitioned :=
  h.grow (slots_insertLine { record with slotCount := record.slotCount + 1 } hline _)
    rfl

theorem lineOrInsert (h : record.Partitioned) (number : UInt32) (signature : String) :
    (record.lineOrInsert number signature).2.Partitioned := by
  unfold ClassRecord.lineOrInsert
  cases hline : record.line? number with
  | some line => exact h
  | none => exact h.addLine hline signature

/-- A branch is added to its line. -/
theorem addBranch (h : record.Partitioned) {number : UInt32} (hline : record.line? number = some line)
    {f : LineRecord → LineRecord} {n : Nat}
    (hf : (f line).slots.Perm (line.slots ++ List.range' record.slotCount n)) :
    (({ record with slotCount := record.slotCount + n } : ClassRecord).modifyLine number
      f).Partitioned :=
  h.grow (slots_modifyLine { record with slotCount := record.slotCount + n } hline hf)
    (slotCount_modifyLine _ _ _)

theorem assignKept (h : record.Partitioned) (signature : String) (slots : MethodSlots)
    (kept : Kept) : (record.assignKept signature slots kept).1.Partitioned := by
  have hknown := h.lineOrInsert kept.number signature
  have hline := record.line?_lineOrInsert kept.number signature
  cases kept with
  | line marker => exact hknown
  | jump site => exact hknown.addBranch hline (n := 2) (LineRecord.slots_addJump _ _)
  | switch site =>
      simp only [ClassRecord.assignKept, allocateSlots, allocateSlot]
      cases hretracted : site.defaultRetracted with
      | true =>
          refine hknown.addBranch hline (n := site.keys.length) (.of_eq ?_)
          rw [LineRecord.slots_addSwitch]
          simp [SwitchRecord.fresh, SwitchRecord.slots, Kept.number]
      | false =>
          refine hknown.addBranch hline (n := site.keys.length + 1) (.of_eq ?_)
          rw [LineRecord.slots_addSwitch, List.range'_1_concat]
          rfl

theorem assignAll (h : record.Partitioned) (signature : String) (kepts : List Kept)
    (slots : MethodSlots) : (ClassRecord.assignAll signature kepts record slots).1.Partitioned := by
  induction kepts generalizing record slots with
  | nil => exact h
  | cons kept rest ih => exact ih (h.assignKept signature slots kept) _

/-- Numbers of instructions change no slots. -/
theorem addCounts (h : record.Partitioned) (counts : List (UInt32 × Nat)) :
    (record.addCounts counts).Partitioned := by
  induction counts generalizing record with
  | nil => exact h
  | cons count rest ih =>
      refine ih ?_
      cases hline : record.line? count.1 with
      | none =>
          simp only [modifyLine, hline]
          exact h
      | some line => exact h.addBranch hline (n := 0) (.of_eq (List.append_nil _).symm)

theorem assign (h : record.Partitioned) (signature : String) (scan : Scan) (count : Bool) :
    (record.assign signature scan count).1.Partitioned := by
  have hassigned := h.assignAll signature scan.kept {}
  rw [ClassRecord.assign]
  dsimp only
  split
  · exact hassigned.addCounts _
  · exact hassigned

end ClassRecord.Partitioned

/-! ## Sites -/

/-- The probe sites of a kept entry. -/
def Kept.sites : Kept → List ProbeSite
  | .line marker => [.line marker.line]
  | .jump site => [.line site.line, .taken site.index, .notTaken site.index]
  | .switch site =>
      .line site.line :: ((List.range site.keys.length).map (ProbeSite.case site.index) ++
        if site.defaultRetracted then [] else [.otherwise site.index])

theorem Kept.occurrence_mem_outcomes {kept : Kept} {site : ProbeSite} (h : site ∈ kept.sites)
    (method : Nat) :
    site = .line kept.number ∨ site.occurrence method ∈ kept.outcomes method := by
  cases kept with
  | line marker => exact .inl (List.mem_singleton.1 h)
  | jump jump =>
      simp only [sites, List.mem_cons, List.not_mem_nil, or_false] at h
      rcases h with rfl | rfl | rfl
      · exact .inl rfl
      · exact .inr List.mem_cons_self
      · exact .inr (List.mem_cons_of_mem _ List.mem_cons_self)
  | switch switch =>
      rcases List.mem_cons.1 h with rfl | h
      · exact .inl rfl
      · refine .inr (List.mem_append.2 ((List.mem_append.1 h).imp ?_ ?_))
        · intro hcase
          obtain ⟨pos, hpos, rfl⟩ := List.mem_map.1 hcase
          exact List.mem_map_of_mem hpos
        · intro hdefault
          split at hdefault
          · cases hdefault
          · obtain rfl := List.mem_singleton.1 hdefault
            rw [if_neg ‹_›]
            exact List.mem_singleton.2 rfl

/-- Every site of a kept entry has a slot. -/
theorem MethodSlots.Fits.isSome_of_mem_sites {slots : MethodSlots} {method : Nat}
    {here : List Kept} {meanings : List Occurrence} (h : slots.Fits method here meanings)
    {kept : Kept} (hkept : kept ∈ here) {site : ProbeSite} (hsite : site ∈ kept.sites) :
    (slots.slot? site).isSome := by
  rcases Kept.occurrence_mem_outcomes hsite method with rfl | houtcome
  · exact h.line kept hkept
  · exact h.outcome kept hkept site houtcome

/-- Sites stand for the same if they are the same site of one method, or the same line. -/
theorem ProbeSite.occurrence_eq_iff {method method' : Nat} {site site' : ProbeSite} :
    site.occurrence method = site'.occurrence method' ↔
      site = site' ∧ (method = method' ∨ ∃ number, site = .line number) := by
  cases site <;> cases site' <;> simp [occurrence, and_comm]

end BytecodeCoverage
