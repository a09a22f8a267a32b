/-!
# Maps with ascending keys

A finite map kept as the list of its entries in strictly ascending order of their keys. Two maps
with the same entries are equal, and listing the entries is listing them by key.

**Results.**
* `get?_insert`: looking up after an insertion.
* `ext`: maps that answer every look-up alike are equal.
-/

namespace BytecodeCoverage

universe u v w

/-- The keys of the entries strictly ascend. -/
def Ascending {κ : Type u} {ν : Type v} [Ord κ] (entries : List (κ × ν)) : Prop :=
  entries.Pairwise fun a b => compare a.1 b.1 = .lt

/-- A finite map, listed by ascending key. -/
structure SortedMap (κ : Type u) (ν : Type v) [Ord κ] where
  entries : List (κ × ν)
  ascending : Ascending entries

namespace SortedMap

section Entries

variable {κ : Type u} {ν : Type v} [Ord κ]

/-- Puts an entry in its place; an entry with the same key gives way. -/
def insertEntry (k : κ) (x : ν) : List (κ × ν) → List (κ × ν)
  | [] => [(k, x)]
  | e :: rest =>
      match compare k e.1 with
      | .lt => (k, x) :: e :: rest
      | .eq => (k, x) :: rest
      | .gt => e :: insertEntry k x rest

/-- The value of the entry with a given key. -/
def findEntry (k : κ) : List (κ × ν) → Option ν
  | [] => none
  | e :: rest =>
      match compare k e.1 with
      | .eq => some e.2
      | _ => findEntry k rest

theorem mem_insertEntry {k : κ} {x : ν} {a : κ × ν} {l : List (κ × ν)}
    (h : a ∈ insertEntry k x l) : a = (k, x) ∨ a ∈ l := by
  induction l with
  | nil => simpa [insertEntry] using h
  | cons e rest ih =>
      rw [insertEntry] at h
      cases hc : compare k e.1 <;> simp only [hc, List.mem_cons] at h ⊢ <;> grind

/-- A key below every key of a list has no entry there. -/
theorem findEntry_eq_none {k : κ} {l : List (κ × ν)} (h : ∀ a ∈ l, compare k a.1 = .lt) :
    findEntry k l = none := by
  induction l with
  | nil => rfl
  | cons e rest ih =>
      simp only [findEntry, h e List.mem_cons_self]
      exact ih fun a ha => h a (List.mem_cons_of_mem _ ha)

end Entries

section Order

variable {κ : Type u} {ν : Type v} [Ord κ] [Std.TransOrd κ] [Std.LawfulEqOrd κ]

theorem ascending_insertEntry (k : κ) (x : ν) {l : List (κ × ν)} (h : Ascending l) :
    Ascending (insertEntry k x l) := by
  induction l with
  | nil => simp [insertEntry, Ascending]
  | cons e rest ih =>
      have hrest : Ascending rest := List.Pairwise.of_cons h
      have hhead : ∀ a ∈ rest, compare e.1 a.1 = .lt := (List.pairwise_cons.1 h).1
      rw [insertEntry]
      cases hc : compare k e.1 with
      | lt =>
          refine List.pairwise_cons.2 ⟨fun a ha => ?_, h⟩
          rcases List.mem_cons.1 ha with rfl | ha
          · exact hc
          · exact Std.TransCmp.lt_trans hc (hhead a ha)
      | eq =>
          refine List.pairwise_cons.2 ⟨fun a ha => ?_, hrest⟩
          rw [Std.LawfulEqCmp.eq_of_compare hc]
          exact hhead a ha
      | gt =>
          refine List.pairwise_cons.2 ⟨fun a ha => ?_, ih hrest⟩
          rcases mem_insertEntry ha with rfl | ha
          · exact Std.OrientedCmp.lt_of_gt hc
          · exact hhead a ha

/-- The map without entries. -/
def empty : SortedMap κ ν :=
  ⟨[], List.Pairwise.nil⟩

instance : Inhabited (SortedMap κ ν) :=
  ⟨empty⟩

/-- Gives a key a value. -/
def insert (m : SortedMap κ ν) (k : κ) (x : ν) : SortedMap κ ν :=
  ⟨insertEntry k x m.entries, ascending_insertEntry k x m.ascending⟩

/-- The value of a key. -/
def get? (m : SortedMap κ ν) (k : κ) : Option ν :=
  findEntry k m.entries

/-- Whether a key has a value. -/
def contains (m : SortedMap κ ν) (k : κ) : Bool :=
  (m.get? k).isSome

/-- The keys, ascending. -/
def keys (m : SortedMap κ ν) : List κ :=
  m.entries.map Prod.fst

/-- The values, by ascending key. -/
def values (m : SortedMap κ ν) : List ν :=
  m.entries.map Prod.snd

/-- The number of entries. -/
def size (m : SortedMap κ ν) : Nat :=
  m.entries.length

/-- Whether there is no entry. -/
def isEmpty (m : SortedMap κ ν) : Bool :=
  m.entries.isEmpty

/-- Inserts the entries one after the other; of equal keys the last one counts. -/
def insertAll (m : SortedMap κ ν) (entries : List (κ × ν)) : SortedMap κ ν :=
  entries.foldl (fun m e => m.insert e.1 e.2) m

/-- The map with the listed entries; of equal keys the last one counts. -/
def ofList (entries : List (κ × ν)) : SortedMap κ ν :=
  empty.insertAll entries

/-- Replaces the value of a key by a function of what it was. -/
def update (m : SortedMap κ ν) (k : κ) (f : Option ν → ν) : SortedMap κ ν :=
  m.insert k (f (m.get? k))

/-- Changes every value, keys staying as they are. -/
def mapValues {μ : Type w} (m : SortedMap κ ν) (f : κ → ν → μ) : SortedMap κ μ :=
  ⟨m.entries.map fun e => (e.1, f e.1 e.2), by
    unfold Ascending
    rw [List.pairwise_map]
    exact m.ascending⟩

/-- All entries of both maps; where both have a key, `f` joins the values. -/
def union (f : ν → ν → ν) (a b : SortedMap κ ν) : SortedMap κ ν :=
  b.entries.foldl
    (fun m e =>
      m.update e.1 fun
        | some x => f x e.2
        | none => e.2)
    a

omit [Std.TransOrd κ] in
theorem findEntry_insertEntry (k k' : κ) (x : ν) (l : List (κ × ν)) :
    findEntry k' (insertEntry k x l) =
      if compare k' k = .eq then some x else findEntry k' l := by
  induction l with
  | nil =>
      simp only [insertEntry, findEntry]
      cases compare k' k <;> rfl
  | cons e rest ih =>
      rw [insertEntry]
      cases hc : compare k e.1 with
      | lt =>
          simp only [findEntry]
          cases compare k' k <;> rfl
      | eq =>
          have hk := Std.LawfulEqCmp.eq_of_compare hc
          simp only [findEntry, ← hk]
          cases compare k' k <;> rfl
      | gt =>
          simp only [findEntry, ih]
          cases hk' : compare k' e.1 with
          | eq =>
              have hke := Std.LawfulEqCmp.eq_of_compare hk'
              have : compare k' k ≠ .eq := fun h => by
                rw [Std.LawfulEqCmp.eq_of_compare h] at hke
                simp [hke] at hc
              simp [this]
          | lt => rfl
          | gt => rfl

theorem get?_insert (m : SortedMap κ ν) (k k' : κ) (x : ν) :
    (m.insert k x).get? k' = if compare k' k = .eq then some x else m.get? k' :=
  findEntry_insertEntry k k' x m.entries

theorem get?_insert_self (m : SortedMap κ ν) (k : κ) (x : ν) : (m.insert k x).get? k = some x := by
  simp [get?_insert]

theorem get?_insert_of_ne (m : SortedMap κ ν) {k k' : κ} (x : ν) (h : k' ≠ k) :
    (m.insert k x).get? k' = m.get? k' := by
  have : compare k' k ≠ .eq := fun hc => h (Std.LawfulEqCmp.eq_of_compare hc)
  simp [get?_insert, this]

theorem eq_of_findEntry_eq {l₁ l₂ : List (κ × ν)} (h₁ : Ascending l₁) (h₂ : Ascending l₂)
    (h : ∀ k, findEntry k l₁ = findEntry k l₂) : l₁ = l₂ := by
  induction l₁ generalizing l₂ with
  | nil =>
      cases l₂ with
      | nil => rfl
      | cons e rest => simpa [findEntry] using h e.1
  | cons a l ih =>
      cases l₂ with
      | nil => simpa [findEntry] using h a.1
      | cons b r =>
          have ha := (List.pairwise_cons.1 h₁).1
          have hb := (List.pairwise_cons.1 h₂).1
          have hab := h a.1
          have hba := h b.1
          simp only [findEntry, Std.ReflCmp.compare_self] at hab hba
          cases hc : compare a.1 b.1 with
          | lt =>
              rw [hc] at hab
              simp [findEntry_eq_none fun x hx => Std.TransCmp.lt_trans hc (hb x hx)] at hab
          | gt =>
              have hc' := Std.OrientedCmp.lt_of_gt hc
              rw [hc'] at hba
              simp [findEntry_eq_none fun x hx => Std.TransCmp.lt_trans hc' (ha x hx)] at hba
          | eq =>
              have hk := Std.LawfulEqCmp.eq_of_compare hc
              rw [hc] at hab
              have hv : a.2 = b.2 := by simpa using hab
              have hrest : l = r := by
                refine ih (List.Pairwise.of_cons h₁) (List.Pairwise.of_cons h₂) fun k => ?_
                have hk' := h k
                simp only [findEntry, ← hk] at hk'
                cases hka : compare k a.1 with
                | eq =>
                    have hke := Std.LawfulEqCmp.eq_of_compare hka
                    rw [hke, findEntry_eq_none ha, findEntry_eq_none (hk ▸ hb)]
                | lt => simpa [hka] using hk'
                | gt => simpa [hka] using hk'
              rw [hrest, Prod.ext hk hv]

/-- Maps that answer every look-up alike are equal. -/
theorem ext {a b : SortedMap κ ν} (h : ∀ k, a.get? k = b.get? k) : a = b := by
  have := eq_of_findEntry_eq a.ascending b.ascending h
  cases a
  cases b
  simp_all

end Order

end SortedMap

end BytecodeCoverage
