import BytecodeCoverage.Probe.Slots
import BytecodeCoverage.Proofs.Machine.Events
import BytecodeCoverage.Proofs.Scan.Sites
import Mathlib.Data.List.Forall2

/-!
# What slots stand for

A slot stands for one occurrence: that a marker of a line is passed, in whatever method, or that a
branch of a method has one of its outcomes.  The records of jumps and switches say which slots
belong to which outcomes.

**Main definitions.**
* `Occurrence`: what a slot stands for.
* `Kept.outcomes`: the outcomes of a kept entry, in the order of their slots.
* `JumpRecord.Means`, `SwitchRecord.Means`: records of branches and their slots.

**Results.**
* `JumpRecord.means_fresh`, `SwitchRecord.means_fresh`: new records of branches.
-/

namespace BytecodeCoverage

/-- What a slot stands for. -/
inductive Occurrence
  /-- A marker of the line is passed. -/
  | passes (line : UInt32)
  /-- A branch of the method has an outcome. -/
  | performs (method index : Nat) (deed : Deed)
  deriving DecidableEq

/-- What a probe site of a method counts. -/
def ProbeSite.occurrence (method : Nat) : ProbeSite → Occurrence
  | .line number => .passes number
  | .taken index => .performs method index .taken
  | .notTaken index => .performs method index .notTaken
  | .case index pos => .performs method index (.case pos)
  | .otherwise index => .performs method index .otherwise

theorem ProbeSite.occurrence_inj {method : Nat} {a b : ProbeSite}
    (h : a.occurrence method = b.occurrence method) : a = b := by
  cases a <;> cases b <;> simp_all [occurrence]

namespace Kept

/-- The position of a branch. -/
def branch? : Kept → Option Nat
  | .line _ => none
  | .jump site => some site.index
  | .switch site => some site.index

/-- The outcomes of a kept entry, in the order of their slots. -/
def outcomes (method : Nat) : Kept → List Occurrence
  | .line _ => []
  | .jump site =>
      [.performs method site.index .taken, .performs method site.index .notTaken]
  | .switch site =>
      ((List.range site.keys.length).map fun pos => .performs method site.index (.case pos)) ++
        if site.defaultRetracted then [] else [.performs method site.index .otherwise]

/-- An outcome is one of its branch. -/
theorem eq_performs_of_mem {method : Nat} {kept : Kept} {o : Occurrence}
    (h : o ∈ kept.outcomes method) :
    ∃ index deed, kept.branch? = some index ∧ o = .performs method index deed := by
  cases kept with
  | line marker => simp [outcomes] at h
  | jump site =>
      simp only [outcomes, List.mem_cons, List.not_mem_nil, or_false] at h
      rcases h with rfl | rfl <;> exact ⟨site.index, _, rfl, rfl⟩
  | switch site =>
      rcases List.mem_append.1 h with h | h
      · obtain ⟨pos, -, rfl⟩ := List.mem_map.1 h
        exact ⟨site.index, _, rfl, rfl⟩
      · cases hretracted : site.defaultRetracted with
        | true => simp [hretracted] at h
        | false =>
            simp only [hretracted, Bool.false_eq_true, if_false, List.mem_singleton] at h
            exact ⟨site.index, _, rfl, h⟩

/-- An entry has no outcome twice. -/
theorem nodup_outcomes (method : Nat) (kept : Kept) : (kept.outcomes method).Nodup := by
  cases kept with
  | line marker => exact List.nodup_nil
  | jump site => simp [outcomes]
  | switch site =>
      refine List.nodup_append.2 ⟨?_, by split <;> simp, ?_⟩
      · exact List.nodup_range.map fun a b h => by simpa using h
      · intro o ho other hother
        obtain ⟨pos, -, rfl⟩ := List.mem_map.1 ho
        split at hother
        · simp at hother
        · obtain rfl := List.mem_singleton.1 hother
          simp

end Kept

/-- What is selected from the entries of a line, with the places of their methods. -/
def sitesOn {α : Type} (select : Kept → Option α) (number : UInt32)
    (entries : List (Nat × Kept)) : List (Nat × α) :=
  (entries.filter fun e => e.2.number = number).filterMap fun e => (select e.2).map (Prod.mk e.1)

/-- The branches, by method and position. -/
def branchesOf (entries : List (Nat × Kept)) : List (Nat × Nat) :=
  entries.filterMap fun e => e.2.branch?.map fun index => (e.1, index)

section SitesOn

variable {α : Type} (select : Kept → Option α)

theorem sitesOn_append (number : UInt32) (a b : List (Nat × Kept)) :
    sitesOn select number (a ++ b) = sitesOn select number a ++ sitesOn select number b := by
  rw [sitesOn, List.filter_append, List.filterMap_append]
  rfl

theorem sitesOn_singleton (method : Nat) (kept : Kept) :
    sitesOn select kept.number [(method, kept)] = ((select kept).map (Prod.mk method)).toList := by
  cases h : select kept <;> simp [sitesOn, h]

theorem sitesOn_append_of_ne {number : UInt32} {method : Nat} {kept : Kept}
    {entries : List (Nat × Kept)} (h : number ≠ kept.number) :
    sitesOn select number (entries ++ [(method, kept)]) = sitesOn select number entries := by
  rw [sitesOn_append, List.append_right_eq_self]
  simp [sitesOn, h.symm]

theorem sitesOn_append_of_none {number : UInt32} {method : Nat} {kept : Kept}
    {entries : List (Nat × Kept)} (h : select kept = none) :
    sitesOn select number (entries ++ [(method, kept)]) = sitesOn select number entries := by
  rw [sitesOn_append, List.append_right_eq_self]
  by_cases hnumber : kept.number = number <;> simp [sitesOn, hnumber, h]

variable {select} in
theorem mem_sitesOn {method : Nat} {kept : Kept} {entries : List (Nat × Kept)} {site : α}
    (h : (method, kept) ∈ entries) (hselect : select kept = some site) :
    (method, site) ∈ sitesOn select kept.number entries :=
  List.mem_filterMap.2 ⟨(method, kept), List.mem_filter.2 ⟨h, decide_eq_true rfl⟩, by
    rw [hselect, Option.map_some]⟩

/-- The sites of a method on a line. -/
theorem sitesOn_map {line : α → UInt32}
    (hline : ∀ kept site, select kept = some site → kept.number = line site) (number : UInt32)
    (method : Nat) (kepts : List Kept) :
    sitesOn select number (kepts.map (Prod.mk method)) =
      ((kepts.filterMap select).filter fun site => line site = number).map (Prod.mk method) := by
  induction kepts with
  | nil => rfl
  | cons kept rest ih =>
      rw [List.map_cons, ← List.singleton_append, sitesOn_append, ih]
      cases hselect : select kept with
      | none =>
          rw [List.filterMap_cons_none hselect]
          by_cases hnumber : kept.number = number <;> simp [sitesOn, hnumber, hselect]
      | some site =>
          rw [List.filterMap_cons_some hselect]
          have hsame := hline kept site hselect
          by_cases hnumber : line site = number <;> simp [sitesOn, hsame, hnumber, hselect]

end SitesOn

/-- The record of a jump whose slots stand for its outcomes. -/
def JumpRecord.Means (meanings : List Occurrence) (jump : JumpRecord) (e : Nat × JumpSite) :
    Prop :=
  meanings[jump.takenSlot]? = some (.performs e.1 e.2.index .taken) ∧
    meanings[jump.notTakenSlot]? = some (.performs e.1 e.2.index .notTaken)

/-- The record of a switch whose slots stand for its outcomes. -/
structure SwitchRecord.Means (meanings : List Occurrence) (switch : SwitchRecord)
    (e : Nat × SwitchSite) : Prop where
  keys : switch.keys = e.2.keys
  length : switch.keySlots.length = e.2.keys.length
  case : ∀ pos slot : Nat, switch.keySlots[pos]? = some slot →
    meanings[slot]? = some (.performs e.1 e.2.index (.case pos))
  default : switch.defaultSlot.isSome = !e.2.defaultRetracted
  otherwise : ∀ slot ∈ switch.defaultSlot,
    meanings[slot]? = some (.performs e.1 e.2.index .otherwise)

/-- What has been said of a slot stays. -/
theorem getElem?_append_of_some {α : Type} {l : List α} {i : Nat} {a : α} (h : l[i]? = some a)
    (more : List α) : (l ++ more)[i]? = some a := by
  rw [List.getElem?_append_left (List.getElem?_eq_some_iff.1 h).1, h]

/-- The slots after the ones there are stand for the outcomes of a jump. -/
theorem JumpRecord.means_fresh (before : List Occurrence) (method : Nat) (site : JumpSite) :
    JumpRecord.Means (before ++ (Kept.jump site).outcomes method)
      { takenSlot := before.length, notTakenSlot := before.length + 1 } (method, site) := by
  constructor <;> simp [Kept.outcomes]

/-- The slots after the ones there are stand for the outcomes of a switch. -/
theorem SwitchRecord.means_fresh (before : List Occurrence) (method : Nat) (site : SwitchSite) :
    (SwitchRecord.fresh site.keys (List.range' before.length site.keys.length)
      (if site.defaultRetracted then none else some (before.length + site.keys.length))).Means
        (before ++ (Kept.switch site).outcomes method) (method, site) where
  keys := rfl
  length := List.length_range'
  case pos slot h := by
    obtain ⟨hlt, rfl⟩ := List.getElem?_eq_some_iff.1 h
    have hpos : pos < site.keys.length := by simpa [SwitchRecord.fresh] using hlt
    simp [SwitchRecord.fresh, Kept.outcomes, List.getElem?_append, hpos]
  default := by cases h : site.defaultRetracted <;> simp [SwitchRecord.fresh]
  otherwise slot h := by
    cases hretracted : site.defaultRetracted with
    | true => simp [SwitchRecord.fresh, hretracted] at h
    | false =>
        simp only [SwitchRecord.fresh, hretracted, Bool.false_eq_true, if_false, Option.mem_def,
          Option.some.injEq] at h
        simp [← h, Kept.outcomes, hretracted]

theorem JumpRecord.Means.append {meanings : List Occurrence} {jump : JumpRecord}
    {e : Nat × JumpSite} (h : jump.Means meanings e) (more : List Occurrence) :
    jump.Means (meanings ++ more) e :=
  ⟨getElem?_append_of_some h.1 more, getElem?_append_of_some h.2 more⟩

theorem SwitchRecord.Means.append {meanings : List Occurrence} {switch : SwitchRecord}
    {e : Nat × SwitchSite} (h : switch.Means meanings e) (more : List Occurrence) :
    switch.Means (meanings ++ more) e where
  keys := h.keys
  length := h.length
  case pos slot hslot := getElem?_append_of_some (h.case pos slot hslot) more
  default := h.default
  otherwise slot hslot := getElem?_append_of_some (h.otherwise slot hslot) more

/-- Members at the same place of related lists are related. -/
theorem rel_of_forall₂ {α β : Type} {R : α → β → Prop} {as : List α} {bs : List β}
    (h : List.Forall₂ R as bs) {k : Nat} {a : α} {b : β} (ha : as[k]? = some a)
    (hb : bs[k]? = some b) : R a b := by
  induction h generalizing k with
  | nil => simp at ha
  | cons hab _ ih =>
      cases k with
      | zero =>
          cases ha
          cases hb
          exact hab
      | succ k => exact ih ha hb

theorem exists_of_forall₂ {α β : Type} {R : α → β → Prop} {as : List α} {bs : List β}
    (h : List.Forall₂ R as bs) {k : Nat} {b : β} (hb : bs[k]? = some b) :
    ∃ a, as[k]? = some a ∧ R a b := by
  have hlt : k < as.length := h.length_eq ▸ (List.getElem?_eq_some_iff.1 hb).1
  exact ⟨as[k], List.getElem?_eq_getElem hlt, rel_of_forall₂ h (List.getElem?_eq_getElem hlt) hb⟩

end BytecodeCoverage
