import BytecodeCoverage.SortedMap

/-!
# Looking up in sorted maps

The entries of a map are what its look-ups give.  Each operation on maps has its law of look-up.

**Results.**
* `SortedMap.mem_entries`: entries and look-ups.
* `SortedMap.get?_mapValues`, `SortedMap.get?_ofList_of_mem`: look-ups after operations.
* `SortedMap.ofList_entries`: a map is made of its entries.
* `SortedMap.insertEntry_of_findEntry_none`, `SortedMap.insertEntry_of_findEntry_some`: where an
  entry is put.
-/

namespace BytecodeCoverage

universe u v w

namespace SortedMap

variable {κ : Type u} {ν : Type v} [Ord κ] [Std.TransOrd κ] [Std.LawfulEqOrd κ]

omit [Std.TransOrd κ] in
theorem mem_of_findEntry {k : κ} {x : ν} {l : List (κ × ν)} (h : findEntry k l = some x) :
    (k, x) ∈ l := by
  induction l with
  | nil => cases h
  | cons e rest ih =>
      simp only [findEntry] at h
      split at h
      · rename_i heq
        obtain rfl := Std.LawfulEqCmp.eq_of_compare heq
        cases h
        exact List.mem_cons_self
      · exact List.mem_cons_of_mem _ (ih h)

theorem findEntry_of_mem {k : κ} {x : ν} {l : List (κ × ν)} (hl : Ascending l)
    (h : (k, x) ∈ l) : findEntry k l = some x := by
  induction l with
  | nil => cases h
  | cons e rest ih =>
      have hhead := (List.pairwise_cons.1 hl).1
      simp only [findEntry]
      rcases List.mem_cons.1 h with rfl | h
      · simp
      · have hgt : compare k e.1 = .gt := Std.OrientedCmp.gt_of_lt (hhead _ h)
        rw [hgt]
        exact ih (List.Pairwise.of_cons hl) h

/-- The entries of a map are what its look-ups give. -/
theorem mem_entries {m : SortedMap κ ν} {k : κ} {x : ν} :
    (k, x) ∈ m.entries ↔ m.get? k = some x :=
  ⟨findEntry_of_mem m.ascending, mem_of_findEntry⟩

/-- A map that is not empty has a value for some key. -/
theorem exists_get?_of_not_isEmpty {m : SortedMap κ ν} (h : m.isEmpty = false) :
    ∃ k x, m.get? k = some x := by
  obtain ⟨entries, ascending⟩ := m
  cases entries with
  | nil => cases h
  | cons e rest => exact ⟨e.1, e.2, mem_entries.1 List.mem_cons_self⟩

omit [Std.TransOrd κ] in
theorem findEntry_map {μ : Type w} (f : κ → ν → μ) (k : κ) (l : List (κ × ν)) :
    findEntry k (l.map fun e => (e.1, f e.1 e.2)) = (findEntry k l).map (f k) := by
  induction l with
  | nil => rfl
  | cons e rest ih =>
      simp only [List.map_cons, findEntry]
      split
      · rename_i heq
        obtain rfl := Std.LawfulEqCmp.eq_of_compare heq
        rfl
      · exact ih

omit [Std.TransOrd κ] in
theorem findEntry_filter (p : κ → Bool) (k : κ) (l : List (κ × ν)) :
    findEntry k (l.filter fun e => p e.1) = if p k = true then findEntry k l else none := by
  induction l with
  | nil => simp [findEntry]
  | cons e rest ih =>
      rw [List.filter_cons, findEntry]
      cases hc : compare k e.1 with
      | eq =>
          obtain rfl := Std.LawfulEqCmp.eq_of_compare hc
          cases hp : p e.1 <;> simp [findEntry, hp, ih]
      | lt | gt => cases hp : p e.1 <;> simp [findEntry, hc, ih]

omit [Std.TransOrd κ] in
theorem get?_mapValues {μ : Type w} (m : SortedMap κ ν) (f : κ → ν → μ) (k : κ) :
    (m.mapValues f).get? k = (m.get? k).map (f k) :=
  findEntry_map f k m.entries

theorem get?_update (m : SortedMap κ ν) (k k' : κ) (f : Option ν → ν) :
    (m.update k f).get? k' = if compare k' k = .eq then some (f (m.get? k)) else m.get? k' :=
  m.get?_insert k k' (f (m.get? k))

/-- Where a key gets a value only if it has none, whatever is found was there or is the value. -/
theorem get?_insert_getD {m : SortedMap κ ν} {k k' : κ} {x y : ν}
    (h : (m.insert k ((m.get? k).getD x)).get? k' = some y) : m.get? k' = some y ∨ y = x := by
  by_cases hkey : k' = k
  · obtain rfl := hkey
    rw [get?_insert_self] at h
    cases hold : m.get? k' with
    | some old => exact .inl (by rwa [hold, Option.getD_some] at h)
    | none =>
        rw [hold, Option.getD_none] at h
        exact .inr (Option.some.inj h).symm
  · rw [get?_insert_of_ne _ _ hkey] at h
    exact .inl h

theorem get?_insertAll_of_notMem {m : SortedMap κ ν} {entries : List (κ × ν)} {k : κ}
    (h : k ∉ entries.map Prod.fst) : (m.insertAll entries).get? k = m.get? k := by
  induction entries generalizing m with
  | nil => rfl
  | cons e rest ih =>
      rw [List.map_cons, List.mem_cons, not_or] at h
      exact (ih h.2).trans (m.get?_insert_of_ne e.2 h.1)

/-- Entries with different keys are all found. -/
theorem get?_ofList_of_mem {entries : List (κ × ν)} (hnodup : (entries.map Prod.fst).Nodup)
    {k : κ} {x : ν} (h : (k, x) ∈ entries) : (ofList entries).get? k = some x := by
  suffices hall : ∀ m : SortedMap κ ν, (m.insertAll entries).get? k = some x from hall empty
  intro m
  induction entries generalizing m with
  | nil => cases h
  | cons e rest ih =>
      rw [List.map_cons, List.nodup_cons] at hnodup
      rcases List.mem_cons.1 h with rfl | h
      · exact (get?_insertAll_of_notMem hnodup.1).trans (m.get?_insert_self k x)
      · exact ih hnodup.2 h (m.insert e.1 e.2)

/-- Of entries with different keys, look-ups find what is listed. -/
theorem get?_ofList_eq_some {entries : List (κ × ν)} (hnodup : (entries.map Prod.fst).Nodup)
    {k : κ} {x : ν} : (ofList entries).get? k = some x ↔ (k, x) ∈ entries := by
  refine ⟨fun h => ?_, get?_ofList_of_mem hnodup⟩
  by_cases hmem : k ∈ entries.map Prod.fst
  · obtain ⟨⟨_, y⟩, hy, rfl⟩ := List.mem_map.1 hmem
    obtain rfl := Option.some.inj ((get?_ofList_of_mem hnodup hy).symm.trans h)
    exact hy
  · cases (get?_insertAll_of_notMem hmem).symm.trans h

/-! ### Inserting among the entries -/

omit [Std.TransOrd κ] [Std.LawfulEqOrd κ] in
theorem insertEntry_of_findEntry_none {k : κ} (x : ν) {l : List (κ × ν)} (h : findEntry k l = none) :
    ∃ before after, l = before ++ after ∧ insertEntry k x l = before ++ (k, x) :: after := by
  induction l with
  | nil => exact ⟨[], [], rfl, rfl⟩
  | cons e rest ih =>
      simp only [findEntry] at h
      rw [insertEntry]
      cases hc : compare k e.1 with
      | lt => exact ⟨[], e :: rest, rfl, rfl⟩
      | eq => simp [hc] at h
      | gt =>
          rw [hc] at h
          obtain ⟨before, after, hrest, hinsert⟩ := ih h
          exact ⟨e :: before, after, congrArg (e :: ·) hrest, congrArg (e :: ·) hinsert⟩

theorem insertEntry_of_findEntry_some {k : κ} {old : ν} (x : ν) {l : List (κ × ν)} (hl : Ascending l)
    (h : findEntry k l = some old) :
    ∃ before after, l = before ++ (k, old) :: after ∧
      insertEntry k x l = before ++ (k, x) :: after := by
  induction l with
  | nil => cases h
  | cons e rest ih =>
      have hhead := (List.pairwise_cons.1 hl).1
      simp only [findEntry] at h
      rw [insertEntry]
      cases hc : compare k e.1 with
      | lt =>
          -- The key would stand further on, where keys are greater.
          rw [hc] at h
          have hgt := Std.OrientedCmp.gt_of_lt (hhead _ (mem_of_findEntry h))
          rw [hc] at hgt
          cases hgt
      | eq =>
          obtain rfl := Std.LawfulEqCmp.eq_of_compare hc
          rw [hc] at h
          cases h
          exact ⟨[], rest, rfl, rfl⟩
      | gt =>
          rw [hc] at h
          obtain ⟨before, after, hrest, hinsert⟩ := ih (List.Pairwise.of_cons hl) h
          exact ⟨e :: before, after, congrArg (e :: ·) hrest, congrArg (e :: ·) hinsert⟩

omit [Std.TransOrd κ] in
theorem nodup_keys (m : SortedMap κ ν) : (m.entries.map Prod.fst).Nodup := by
  rw [List.Nodup, List.pairwise_map]
  refine m.ascending.imp ?_
  intro a b hlt heq
  simp [heq] at hlt

/-- Inserting the entries of a map one after the other gives the map. -/
theorem ofList_entries (m : SortedMap κ ν) : ofList m.entries = m := by
  refine ext fun k => ?_
  cases h : m.get? k with
  | some x => exact get?_ofList_of_mem m.nodup_keys (mem_entries.2 h)
  | none =>
      refine (get?_insertAll_of_notMem fun hmem => ?_).trans rfl
      obtain ⟨⟨_, x⟩, hx, rfl⟩ := List.mem_map.1 hmem
      rw [mem_entries.1 hx] at h
      cases h

end SortedMap

end BytecodeCoverage
