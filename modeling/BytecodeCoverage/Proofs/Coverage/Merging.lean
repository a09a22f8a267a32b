import BytecodeCoverage.Coverage.Merge
import BytecodeCoverage.Proofs.SortedMap

/-!
# Merging records with different counters

A record that got its counters twice, from different arrays, merges to the record with the sums.

**Results.**
* `slotValue_zipLongest`: the counter of a slot in a sum of arrays.
* `SortedMap.get?_union`: looking up in a union.
* `ClassRecord.merge_applyHits`: merging records of a class that differ in their counters.
-/

namespace BytecodeCoverage

theorem SortedMap.get?_union {κ ν : Type} [Ord κ] [Std.TransOrd κ] [Std.LawfulEqOrd κ]
    (f : ν → ν → ν) (a b : SortedMap κ ν) (k : κ) :
    (a.union f b).get? k = joinOption f (a.get? k) (b.get? k) := by
  obtain ⟨entries, ascending⟩ := b
  simp only [union]
  induction entries generalizing a with
  | nil =>
      simp only [List.foldl_nil, get?, findEntry]
      cases findEntry k a.entries <;> rfl
  | cons e rest ih =>
      obtain ⟨hhead, hrest⟩ := List.pairwise_cons.1 ascending
      rw [List.foldl_cons, ih _ hrest, get?_update]
      simp only [get?, findEntry]
      cases hc : compare k e.1 with
      | eq =>
          -- The keys that follow are greater.
          obtain rfl := Std.LawfulEqCmp.eq_of_compare hc
          rw [if_pos rfl, findEntry_eq_none hhead]
          cases findEntry e.1 a.entries <;> rfl
      | lt | gt => rfl

/-! ## Lists place by place -/

section Joining

variable {α : Type}

theorem getElem?_zipLongest (f : α → α → α) (as bs : List α) (i : Nat) :
    (zipLongest f as bs)[i]? = joinOption f as[i]? bs[i]? := by
  induction as generalizing bs i with
  | nil => cases bs <;> simp [zipLongest, joinOption]
  | cons a as ih =>
      cases bs with
      | nil => cases h : (a :: as)[i]? <;> simp [zipLongest, joinOption, h]
      | cons b bs =>
          cases i with
          | zero => rfl
          | succ i => exact ih bs i

theorem zipLongest_map {β : Type} (f : α → α → α) (g h : β → α) (xs : List β) :
    zipLongest f (xs.map g) (xs.map h) = xs.map fun x => f (g x) (h x) := by
  refine List.ext_getElem? fun i => ?_
  simp only [getElem?_zipLongest, List.getElem?_map]
  cases xs[i]? <;> rfl

end Joining

theorem lesser_self (a : String) : lesser a a = a :=
  ite_self a

theorem joinOption_self {α : Type} {f : α → α → α} (h : ∀ a, f a a = a) (x : Option α) :
    joinOption f x x = x := by
  cases x with
  | none => rfl
  | some a => exact congrArg some (h a)

theorem Mode.merge_self (mode : Mode) : mode.merge mode = mode := by
  simp only [merge, Bool.or_self, Bool.and_self]

/-! ## Counters -/

theorem satAdd_zero (n : UInt32) : satAdd n 0 = n := by
  have hlt := n.toNat_lt
  apply UInt32.toNat_inj.1
  rw [toNat_satAdd, UInt32.toNat_zero, maxWord]
  omega

/-- Counters are added slot by slot; beyond the end there are only zeros. -/
theorem slotValue_zipLongest (hits hits' : List UInt32) (slot : Nat) :
    slotValue (zipLongest satAdd hits hits') slot =
      satAdd (slotValue hits slot) (slotValue hits' slot) := by
  simp only [slotValue, getElem?_zipLongest]
  cases hits[slot]? with
  | none => simp [joinOption, satAdd_comm 0, satAdd_zero]
  | some n => cases hits'[slot]? <;> simp [joinOption, satAdd_zero]

variable (hits hits' : List UInt32)

theorem JumpRecord.accumulate_applyHits (jump : JumpRecord) :
    (jump.applyHits hits).accumulate (jump.applyHits hits') =
      jump.applyHits (zipLongest satAdd hits hits') := by
  simp only [applyHits, accumulate, slotValue_zipLongest]

theorem SwitchRecord.addHits_map (g g' : Nat → UInt32) (slots : List Nat) :
    addHits (slots.map g) (slots.map g') = slots.map fun slot => satAdd (g slot) (g' slot) := by
  induction slots with
  | nil => rfl
  | cons slot rest ih => rw [List.map_cons, List.map_cons, addHits, ih, List.map_cons]

theorem SwitchRecord.accumulate_applyHits (switch : SwitchRecord) :
    (switch.applyHits hits).accumulate (switch.applyHits hits') =
      switch.applyHits (zipLongest satAdd hits hits') := by
  simp only [applyHits, accumulate, addHits_map]
  cases switch.defaultSlot <;> simp [slotValue_zipLongest]

theorem LineRecord.merge_applyHits (line : LineRecord) :
    (line.applyHits hits).merge (line.applyHits hits') =
      line.applyHits (zipLongest satAdd hits hits') := by
  simp only [applyHits, merge, zipLongest_map, lesser_self, joinOption_self Nat.max_self,
    slotValue_zipLongest, JumpRecord.accumulate_applyHits, SwitchRecord.accumulate_applyHits]

/-! ## Classes -/

theorem Snapshot.class?_merge (a b : Snapshot) (name : String) :
    (a.merge b).class? name = joinOption ClassRecord.merge (a.class? name) (b.class? name) :=
  SortedMap.get?_union ClassRecord.merge a.classes b.classes name

namespace ClassRecord

theorem line?_mergeParts (a b : ClassRecord) (number : UInt32) :
    (a.mergeParts b).line? number =
      joinOption LineRecord.merge (a.line? number) (b.line? number) :=
  SortedMap.get?_union LineRecord.merge a.lines b.lines number

theorem union_applyHits (record : ClassRecord) :
    (record.applyHits hits).lines.union LineRecord.merge (record.applyHits hits').lines =
      (record.applyHits (zipLongest satAdd hits hits')).lines := by
  refine SortedMap.ext fun number => ?_
  simp only [SortedMap.get?_union, applyHits, applyToLines, SortedMap.get?_mapValues]
  cases record.lines.get? number with
  | none => rfl
  | some line => exact congrArg some (line.merge_applyHits hits hits')

/-- Records of a class that differ in their counters and traces only. -/
theorem merge_applyHits (record : ClassRecord) (trace trace' : Option (List Bool)) :
    { record.applyHits hits with trace }.merge { record.applyHits hits' with trace := trace' } =
      { record.applyHits (zipLongest satAdd hits hits') with
        trace := joinOption (zipLongest or) trace trace' } := by
  have hcontributes : ({ record.applyHits hits with trace } : ClassRecord).contributes =
      ({ record.applyHits hits' with trace := trace' } : ClassRecord).contributes := by
    simp [contributes, applyHits, applyToLines, SortedMap.isEmpty, SortedMap.mapValues]
  have hparts : ({ record.applyHits hits with trace } : ClassRecord).mergeParts
        { record.applyHits hits' with trace := trace' } =
      { record.applyHits (zipLongest satAdd hits hits') with
        trace := joinOption (zipLongest or) trace trace' } := by
    simp only [mergeParts, record.union_applyHits hits hits']
    simp only [applyHits, applyToLines, joinOption_self lesser_self, Nat.max_self, Bool.or_self,
      Option.or_self]
  rw [merge, hcontributes]
  split
  · rename_i htrue hfalse
    rw [htrue] at hfalse
    cases hfalse
  · rename_i hfalse htrue
    rw [hfalse] at htrue
    cases htrue
  · exact hparts

end ClassRecord

end BytecodeCoverage
