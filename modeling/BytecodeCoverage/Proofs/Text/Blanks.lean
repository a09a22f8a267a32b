import BytecodeCoverage.Proofs.Text.Lines
import Mathlib.Data.List.TakeWhile

/-!
# Blanks around a text

Trimming takes off all blanks at both ends and nothing else, so whatever blanks stand around a text
that has none at its own ends, trimming gives this text back.

**Main definitions.**
* `Text.Blank`: texts of blanks.
* `Text.Padded`: a text with blanks around it.

**Results.**
* `Text.padded_trim`, `Text.Padded.trim_eq`: trimming undoes padding.
* `Text.splitAt_eq_splitOn`: the pieces between separators.
-/

namespace BytecodeCoverage
namespace Text

/-- Nothing but blanks. -/
def Blank (cs : List Char) : Prop :=
  ∀ c ∈ cs, isBlank c = true

/-- A text with blanks before and after it. -/
def Padded (core padded : List Char) : Prop :=
  ∃ before after, Blank before ∧ Blank after ∧ padded = before ++ core ++ after

theorem Blank.append {front back : List Char} (hfront : Blank front) (hback : Blank back) :
    Blank (front ++ back) := by
  intro c hc
  exact (List.mem_append.1 hc).elim (hfront c) (hback c)

theorem Blank.notMem {cs : List Char} (h : Blank cs) {c : Char} (hc : isBlank c = false) :
    c ∉ cs := by
  intro hmem
  rw [h c hmem] at hc
  cases hc

theorem Padded.after_blank {core padded before : List Char} (h : Padded core padded)
    (hbefore : Blank before) : Padded core (before ++ padded) := by
  obtain ⟨front, back, hfront, hback, rfl⟩ := h
  exact ⟨before ++ front, back, hbefore.append hfront, hback, by simp⟩

theorem Padded.before_blank {core padded after : List Char} (h : Padded core padded)
    (hafter : Blank after) : Padded core (padded ++ after) := by
  obtain ⟨front, back, hfront, hback, rfl⟩ := h
  exact ⟨front, back ++ after, hfront, hback.append hafter, by simp⟩

/-- What is taken off at the end is blank. -/
theorem exists_trimBack (cs : List Char) : ∃ after, Blank after ∧ cs = trimBack cs ++ after := by
  induction cs with
  | nil => exact ⟨[], nofun, rfl⟩
  | cons c rest ih =>
      obtain ⟨after, hafter, hrest⟩ := ih
      rw [trimBack]
      split
      · rename_i hnil
        rw [hnil, List.nil_append] at hrest
        subst hrest
        by_cases hc : isBlank c = true
        · rw [if_pos hc]
          exact ⟨c :: rest, List.forall_mem_cons.2 ⟨hc, hafter⟩, rfl⟩
        · rw [if_neg hc]
          exact ⟨rest, hafter, rfl⟩
      · exact ⟨after, hafter, congrArg (c :: ·) hrest⟩

/-- What is taken off at both ends is blank. -/
theorem padded_trim (cs : List Char) : Padded (trim cs) cs := by
  obtain ⟨after, hafter, hback⟩ := exists_trimBack (trimFront cs)
  refine ⟨cs.takeWhile isBlank, after, fun c hc => List.mem_takeWhile_imp hc, hafter, ?_⟩
  rw [List.append_assoc, trim, ← hback]
  exact List.takeWhile_append_dropWhile.symm

theorem trim_eq_nil_iff {cs : List Char} : trim cs = [] ↔ Blank cs := by
  constructor
  · intro h
    obtain ⟨before, after, hbefore, hafter, hcs⟩ := padded_trim cs
    rw [h, List.append_nil] at hcs
    exact hcs ▸ hbefore.append hafter
  · intro h
    rw [trim, trimFront, List.dropWhile_eq_nil_iff.2 h]
    rfl

/-- Blanks around a text are taken off if the text has none at its own ends. -/
theorem Padded.trim_eq {core padded : List Char} (h : Padded core padded)
    (hfirst : ∀ c ∈ core.head?, isBlank c = false)
    (hlast : ∀ c ∈ core.getLast?, isBlank c = false) :
    trim padded = core := by
  obtain ⟨before, after, hbefore, hafter, rfl⟩ := h
  cases core with
  | nil => exact trim_eq_nil_iff.2 (by simpa using hbefore.append hafter)
  | cons c core =>
      have hfront : trimFront (before ++ (c :: core) ++ after) = (c :: core) ++ after := by
        rw [trimFront, List.append_assoc, List.dropWhile_append_of_pos hbefore]
        exact List.dropWhile_cons_of_neg (by simp [hfirst c rfl])
      rw [trim, hfront, trimBack_append _ hafter, trimBack_eq_self hlast]

theorem splitAt_eq_splitOn (sep : Char) (cs : List Char) :
    splitAt (· == sep) cs = cs.splitOn sep := by
  induction cs with
  | nil => rfl
  | cons c rest ih =>
      rw [List.splitOn, List.splitOnP_cons_eq_if_modifyHead, splitAt]
      split
      · rw [ih, List.splitOn]
      · rw [ih, List.splitOn]
        cases h : rest.splitOnP (· == sep) with
        | nil => exact absurd h (List.splitOnP_ne_nil _ _)
        | cons piece pieces => rfl

end Text
end BytecodeCoverage
