import BytecodeCoverage.Proofs.Probe.Assign
import BytecodeCoverage.Proofs.SortedMap

/-!
# Numbers of instructions in a record

What methods have of the instructions of a line is added up in its record.  Handing out slots makes
records in which no number is noted, and leaves the numbers of other records as they are.  When the
numbers of a method are added, the lines that it keeps have their records.

**Main definitions.**
* `ClassRecord.noted`: what a record says of the instructions of a line.
* `addedTo`: a note once a number has been added.

**Results.**
* `ClassRecord.noted_assignAll`: handing out slots.
* `ClassRecord.noted_addCounts`: adding numbers.
* `ClassRecord.noted_assign`, `ClassRecord.join_noted_assign`: laying out a method.
-/

namespace BytecodeCoverage

/-- A line is kept together with each of its entries. -/
theorem Scan.keepsLine_iff {scan : Scan} {number : UInt32} :
    scan.keepsLine number = true ↔ ∃ kept ∈ scan.kept, kept.number = number := by
  rw [keepsLine, List.contains_iff_mem]
  constructor
  · intro h
    obtain ⟨marker, hmarker, rfl⟩ := List.mem_map.1 h
    exact ⟨.line marker, mem_kept.2 (.inl ⟨marker, hmarker, rfl⟩), rfl⟩
  · rintro ⟨kept, hkept, rfl⟩
    rcases mem_kept.1 hkept with ⟨marker, hmarker, rfl⟩ | ⟨site, hsite, rfl⟩ | ⟨site, hsite, rfl⟩
    · exact List.mem_map_of_mem hmarker
    · exact List.contains_iff_mem.1 (Bool.and_eq_true_iff.1 (List.mem_filter.1 hsite).2).2
    · exact List.contains_iff_mem.1 (Bool.and_eq_true_iff.1 (List.mem_filter.1 hsite).2).2

/-! ## Notes -/

/-- The note of a number once another one has been added; zero is not noted. -/
def addedTo (note : Option Nat) (n : Nat) : Option Nat :=
  if n = 0 then note else some (note.getD 0 + n)

theorem addedTo_addedTo (note : Option Nat) (a b : Nat) :
    addedTo (addedTo note a) b = addedTo note (a + b) := by
  cases a with
  | zero => rw [Nat.zero_add]; rfl
  | succ a =>
      cases b with
      | zero => rfl
      | succ b => simp [addedTo, Nat.add_assoc]

namespace ClassRecord

/-- What the record says of the instructions of a line, if it has the line. -/
def noted (record : ClassRecord) (number : UInt32) : Option (Option Nat) :=
  (record.line? number).map LineRecord.instructions

variable (record : ClassRecord) (number : UInt32)

theorem noted_modifyLine (other : UInt32) {f : LineRecord → LineRecord}
    {g : Option Nat → Option Nat} (hf : ∀ line, (f line).instructions = g line.instructions) :
    (record.modifyLine other f).noted number =
      if number = other then (record.noted number).map g else record.noted number := by
  rw [noted, line?_modifyLine]
  split
  · rename_i heq
    rw [noted, heq, Option.map_map, Option.map_map]
    exact congrArg (Option.map · _) (funext hf)
  · rfl

/-- A branch changes no number. -/
theorem noted_modifyLine_of_eq (other : UInt32) {f : LineRecord → LineRecord}
    (hf : ∀ line, (f line).instructions = line.instructions) :
    (record.modifyLine other f).noted number = record.noted number := by
  rw [noted_modifyLine record number other (g := id) hf, Option.map_id_fun, id, ite_self]

theorem noted_lineOrInsert (other : UInt32) (signature : String) :
    (record.lineOrInsert other signature).2.noted number =
      if number = other then some (record.noted number).join else record.noted number := by
  unfold lineOrInsert
  cases hline : record.line? other with
  | some line =>
      by_cases heq : number = other
      · simp [noted, heq, hline]
      · rw [if_neg heq]
  | none =>
      dsimp only
      rw [noted, line?_insertLine]
      by_cases heq : number = other
      · simp [noted, heq, hline]
      · rw [if_neg heq, if_neg heq]
        rfl

theorem noted_assignKept (signature : String) (slots : MethodSlots) (kept : Kept) :
    (record.assignKept signature slots kept).1.noted number =
      if number = kept.number then some (record.noted number).join
      else record.noted number := by
  rw [← noted_lineOrInsert record number kept.number signature]
  cases kept with
  | line marker => rfl
  | jump site => exact noted_modifyLine_of_eq _ _ _ fun _ => rfl
  | switch site =>
      simp only [assignKept, allocateSlots, allocateSlot]
      cases site.defaultRetracted <;> exact noted_modifyLine_of_eq _ _ _ fun _ => rfl

theorem noted_assignAll (signature : String) (kepts : List Kept) (slots : MethodSlots) :
    (assignAll signature kepts record slots).1.noted number =
      if ∃ kept ∈ kepts, kept.number = number then some (record.noted number).join
      else record.noted number := by
  induction kepts generalizing record slots with
  | nil => simp [assignAll]
  | cons kept rest ih =>
      have hrest := ih (record.assignKept signature slots kept).1
        (record.assignKept signature slots kept).2
      rw [noted_assignKept] at hrest
      refine hrest.trans ?_
      by_cases hself : number = kept.number
      · simp [hself]
      · simp [hself, Ne.symm hself]

/-- Numbers for different lines are added to the notes of these lines. -/
theorem noted_addCounts {counts : List (UInt32 × Nat)} (h : Ascending counts) :
    (record.addCounts counts).noted number =
      (record.noted number).map fun note =>
        match SortedMap.findEntry number counts with
        | some n => some (note.getD 0 + n)
        | none => note := by
  induction counts generalizing record with
  | nil => exact Option.map_id'.symm
  | cons e rest ih =>
      obtain ⟨hhead, hrest⟩ := List.pairwise_cons.1 h
      refine (ih _ hrest).trans ?_
      rw [noted_modifyLine record number e.1 (g := fun note => some (note.getD 0 + e.2)) fun _ => rfl,
        SortedMap.findEntry]
      by_cases heq : number = e.1
      · have hself : compare e.1 e.1 = .eq := Std.ReflCmp.compare_self
        rw [heq, if_pos rfl, Option.map_map, SortedMap.findEntry_eq_none hhead, hself]
        rfl
      · rw [if_neg heq]
        cases hc : compare number e.1 with
        | eq => exact absurd (Std.LawfulEqCmp.eq_of_compare hc) heq
        | lt | gt => rfl

end ClassRecord

/-! ## Lines with slots -/

theorem MethodSlots.contains_noteLine (slots : MethodSlots) (number other : UInt32) (slot : Nat) :
    (slots.noteLine other slot).lines.contains number = true ↔
      slots.lines.contains number = true ∨ other = number := by
  simp only [noteLine, SortedMap.contains, SortedMap.get?_update]
  split
  · rename_i hc
    simp [Std.LawfulEqCmp.eq_of_compare hc]
  · rename_i hc
    have hne : other ≠ number := fun heq => hc (by simp [heq])
    simp [hne]

namespace ClassRecord

variable (record : ClassRecord) (number : UInt32)

theorem contains_assignKept (signature : String) (slots : MethodSlots) (kept : Kept) :
    (record.assignKept signature slots kept).2.lines.contains number = true ↔
      slots.lines.contains number = true ∨ kept.number = number := by
  cases kept <;> exact slots.contains_noteLine number _ _

/-- A method has slots for the lines that it keeps. -/
theorem contains_assignAll (signature : String) (kepts : List Kept) (slots : MethodSlots) :
    (assignAll signature kepts record slots).2.lines.contains number = true ↔
      slots.lines.contains number = true ∨ ∃ kept ∈ kepts, kept.number = number := by
  induction kepts generalizing record slots with
  | nil => simp [assignAll]
  | cons kept rest ih =>
      have hrest := ih (record.assignKept signature slots kept).1
        (record.assignKept signature slots kept).2
      rw [contains_assignKept] at hrest
      refine hrest.trans ?_
      rw [or_assoc, List.exists_mem_cons_iff]

/-- A method adds what it has of a line that it keeps, and has no part in other lines. -/
theorem noted_assign {f : UInt32 → Nat} {scan : Scan}
    (hcounts : ∀ line, scan.counts.get? line = if f line = 0 then none else some (f line))
    (signature : String) (count : Bool) :
    (record.assign signature scan count).1.noted number =
      if scan.keepsLine number = true then
        some (addedTo (record.noted number).join (if count then f number else 0))
      else record.noted number := by
  have hkeeps : scan.keepsLine number = true ↔ ∃ kept ∈ scan.kept, kept.number = number :=
    Scan.keepsLine_iff
  have hnoted := noted_assignAll record number signature scan.kept {}
  have hslots := contains_assignAll record number signature scan.kept {}
  rw [assign]
  dsimp only
  cases count with
  | false =>
      rw [if_neg Bool.false_ne_true, if_neg Bool.false_ne_true, hnoted]
      simp only [hkeeps, addedTo, if_true]
  | true =>
      -- Only numbers for lines with slots are added, and these are the lines that the method keeps.
      rw [if_pos rfl, if_pos rfl, noted_addCounts _ _ (List.Pairwise.filter _ scan.counts.ascending),
        SortedMap.findEntry_filter, hnoted]
      by_cases hkept : scan.keepsLine number = true
      · have hfound : SortedMap.findEntry number scan.counts.entries = _ := hcounts number
        rw [if_pos (hslots.2 (.inr (hkeeps.1 hkept))), if_pos (hkeeps.1 hkept), if_pos hkept, hfound,
          addedTo]
        cases f number <;> rfl
      · have hnone : ¬∃ kept ∈ scan.kept, kept.number = number := fun h => hkept (hkeeps.2 h)
        have hempty : ¬((assignAll signature scan.kept record {}).2.lines.contains number = true) :=
          fun h => (hslots.1 h).elim (fun h => by cases h) hnone
        rw [if_neg hempty, if_neg hnone, if_neg hkept]
        exact Option.map_id'

/-- What a record says of a line, whether it had the line before or not. -/
theorem join_noted_assign {f : UInt32 → Nat} {scan : Scan}
    (hcounts : ∀ line, scan.counts.get? line = if f line = 0 then none else some (f line))
    (signature : String) (count : Bool) :
    ((record.assign signature scan count).1.noted number).join =
      addedTo (record.noted number).join
        (if count then if scan.keepsLine number = true then f number else 0 else 0) := by
  rw [noted_assign record number hcounts]
  by_cases hkeeps : scan.keepsLine number = true
  · rw [if_pos hkeeps, if_pos hkeeps]
    rfl
  · rw [if_neg hkeeps, if_neg hkeeps, ite_self]
    rfl

end ClassRecord

end BytecodeCoverage
