import BytecodeCoverage.Code.Body
import Mathlib.Data.List.Nodup

/-!
# Where labels stand

A label stands where it is placed last.  In code that places no label twice, every placement of a
label is its position.

`Body.Sound` is what a body without defects promises about its labels.

**Results.**
* `Body.position?_of_nodup`: the position of a label that is placed once.
-/

namespace BytecodeCoverage

namespace Body

theorem placedIn_append (a b : List Instruction) :
    placedIn (a ++ b) = placedIn a ++ placedIn b := by
  induction a with
  | nil => rfl
  | cons insn rest ih => cases insn <;> simp [placedIn, ih]

theorem mem_placedIn {label : Label} {code : List Instruction} :
    label ∈ placedIn code ↔ Instruction.label label ∈ code := by
  induction code with
  | nil => simp [placedIn]
  | cons insn rest ih => cases insn <;> simp [placedIn, ih]

/-- A label that is placed once is placed neither before nor after that. -/
theorem notMem_of_nodup {label : Label} {before after : List Instruction}
    (h : (placedIn (before ++ .label label :: after)).Nodup) :
    .label label ∉ before ∧ .label label ∉ after := by
  rw [placedIn_append, placedIn, List.nodup_append, List.nodup_cons] at h
  obtain ⟨-, ⟨hafter, -⟩, hapart⟩ := h
  rw [mem_placedIn] at hafter
  exact ⟨fun hbefore => hapart _ (mem_placedIn.2 hbefore) _ List.mem_cons_self rfl, hafter⟩

namespace position?

/-- Later placements come before earlier ones. -/
theorem go_append (label : Label) (i : Nat) (a b : List Instruction) :
    go label i (a ++ b) = (go label (i + a.length) b).or (go label i a) := by
  induction a generalizing i with
  | nil => simp [go]
  | cons insn rest ih =>
      simp only [List.cons_append, go, ih, List.length_cons, Option.or_assoc]
      rw [Nat.add_right_comm i 1, Nat.add_assoc]

theorem go_eq_none {label : Label} {code : List Instruction} (h : label ∉ placedIn code)
    (i : Nat) : go label i code = none := by
  induction code generalizing i with
  | nil => rfl
  | cons insn rest ih =>
      cases insn with
      | label placed =>
          simp only [placedIn, List.mem_cons, not_or] at h
          simp [go, ih h.2, Ne.symm h.1]
      | _ => exact by simpa [go] using ih h (i + 1)

theorem go_shift (label : Label) (i n : Nat) (code : List Instruction) :
    go label (i + n) code = (go label i code).map (· + n) := by
  induction code generalizing i with
  | nil => rfl
  | cons insn rest ih =>
      simp only [go, Nat.add_right_comm i n 1, ih (i + 1)]
      cases go label (i + 1) rest with
      | some j => rfl
      | none =>
          cases insn with
          | label placed => by_cases h : placed = label <;> simp [h]
          | _ => rfl

/-- What is found is a placement. -/
theorem getElem?_go {label : Label} {i j : Nat} {code : List Instruction}
    (h : go label i code = some j) : i ≤ j ∧ code[j - i]? = some (.label label) := by
  induction code generalizing i j with
  | nil => simp [go] at h
  | cons insn rest ih =>
      simp only [go, Option.or_eq_some_iff] at h
      rcases h with hrest | ⟨-, hinsn⟩
      · obtain ⟨hle, hget⟩ := ih hrest
        have : j - i = (j - (i + 1)) + 1 := by omega
        refine ⟨by omega, ?_⟩
        rw [this]
        simpa using hget
      · cases insn with
        | label placed =>
            by_cases hp : placed = label
            · simp only [hp, if_true, Option.some.injEq] at hinsn
              simp [← hinsn, hp]
            · simp [hp] at hinsn
        | _ => simp at hinsn

/-- A placed label is found. -/
theorem isSome_go {label : Label} {code : List Instruction} (h : label ∈ placedIn code)
    (i : Nat) : (go label i code).isSome := by
  induction code generalizing i with
  | nil => simp [placedIn] at h
  | cons insn rest ih =>
      simp only [go, Option.isSome_or, Bool.or_eq_true]
      by_cases hrest : label ∈ placedIn rest
      · exact .inl (ih hrest (i + 1))
      · cases insn with
        | label placed =>
            simp only [placedIn, List.mem_cons, hrest, or_false] at h
            exact .inr (by simp [h])
        | _ => exact absurd h hrest

end position?

/-- A label stands at a placement of it. -/
theorem getElem?_position {body : Body} {label : Label} {pos : Nat}
    (h : body.position? label = some pos) : body.code[pos]? = some (.label label) := by
  simpa using (position?.getElem?_go h).2

/-- Code that places a label once has it there. -/
theorem position?_of_nodup {body : Body} {label : Label} {pos : Nat} (h : body.placed.Nodup)
    (hpos : body.code[pos]? = some (.label label)) : body.position? label = some pos := by
  obtain ⟨hlt, hget⟩ := List.getElem?_eq_some_iff.1 hpos
  have hsplit : body.code = body.code.take pos ++ .label label :: body.code.drop (pos + 1) := by
    rw [← hget, List.getElem_cons_drop, List.take_append_drop]
  have hlater : label ∉ placedIn (body.code.drop (pos + 1)) := by
    rw [placed, hsplit, placedIn_append, List.nodup_append] at h
    have := h.2.1
    rw [placedIn, List.nodup_cons] at this
    exact this.1
  have hlength : (body.code.take pos).length = pos := by
    rw [List.length_take]
    omega
  rw [position?, hsplit, position?.go_append, hlength]
  simp [position?.go, position?.go_eq_none hlater]

/-- A placed label has a position. -/
theorem exists_position {body : Body} {label : Label} (h : label ∈ body.placed) :
    ∃ pos, body.position? label = some pos :=
  Option.isSome_iff_exists.1 (position?.isSome_go h 0)

/-- No label is placed twice, and every target is placed. -/
structure Sound (body : Body) : Prop where
  nodup : body.placed.Nodup
  targets : ∀ insn ∈ body.code, ∀ label ∈ insn.targets, label ∈ body.placed

end Body

end BytecodeCoverage
