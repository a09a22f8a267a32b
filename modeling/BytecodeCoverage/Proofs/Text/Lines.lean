import BytecodeCoverage.Text.Blank
import Mathlib.Data.List.Forall2

/-!
# Lines and blanks

A line reads back from a text whether a line feed ends it or a carriage return and a line feed, and
whatever blanks come before these.

**Main definitions.**
* `Text.Tidy`: texts of one line without blanks at their ends.
* `Text.Typed`: how a line may stand in a text.

**Results.**
* `Text.trimBack_lines`: the lines of a text that was put together line by line.
-/

namespace BytecodeCoverage
namespace Text

/-! ## Blanks -/

theorem trimBack_eq_nil {blanks : List Char} (h : ∀ c ∈ blanks, isBlank c = true) :
    trimBack blanks = [] := by
  induction blanks with
  | nil => rfl
  | cons c rest ih =>
      rw [trimBack, ih fun d hd => h d (List.mem_cons_of_mem _ hd)]
      exact if_pos (h c List.mem_cons_self)

/-- Blanks at the end make no difference. -/
theorem trimBack_append (cs : List Char) {blanks : List Char} (h : ∀ c ∈ blanks, isBlank c = true) :
    trimBack (cs ++ blanks) = trimBack cs := by
  induction cs with
  | nil => exact trimBack_eq_nil h
  | cons c rest ih => rw [List.cons_append, trimBack, trimBack, ih]

theorem trimBack_cons {c : Char} (hc : isBlank c = false) (cs : List Char) :
    trimBack (c :: cs) = c :: trimBack cs := by
  rw [trimBack]
  split <;> rename_i heq
  · rw [heq, hc]
    rfl
  · rfl

theorem trimBack_eq_self {cs : List Char} (h : ∀ c ∈ cs.getLast?, isBlank c = false) :
    trimBack cs = cs := by
  induction cs with
  | nil => rfl
  | cons c rest ih =>
      cases rest with
      | nil => exact trimBack_cons (h c rfl) []
      | cons d rest =>
          have hrest := ih h
          rw [trimBack, hrest]

/-- A carriage return at the end is a blank like others. -/
theorem trimBack_dropReturn (cs : List Char) : trimBack (dropReturn cs) = trimBack cs := by
  induction cs using dropReturn.induct with
  | case1 => rfl
  | case2 => rfl
  | case3 c rest hreturn ih =>
      rw [dropReturn, trimBack, trimBack, ih]
      exact hreturn

/-- A text without line feeds and with no blank at either end. -/
structure Tidy (cs : List Char) : Prop where
  oneLine : '\n' ∉ cs
  first : ∀ c ∈ cs.head?, isBlank c = false
  last : ∀ c ∈ cs.getLast?, isBlank c = false

namespace Tidy

variable {cs : List Char}

theorem of_forall (h : ∀ c ∈ cs, isBlank c = false) : Tidy cs where
  oneLine hmem := by cases h _ hmem
  first c hc := h c (List.mem_of_head? hc)
  last c hc := h c (List.mem_of_getLast? hc)

theorem of_all (h : (cs.all fun c => !isBlank c) = true) : Tidy cs :=
  .of_forall fun c hc => by simpa using List.all_eq_true.1 h c hc

theorem trimBack_eq (h : Tidy cs) : trimBack cs = cs :=
  trimBack_eq_self h.last

theorem trim_eq (h : Tidy cs) : trim cs = cs := by
  have hfront : trimFront cs = cs := by
    cases cs with
    | nil => rfl
    | cons c rest => exact List.dropWhile_cons_of_neg (by simp [h.first c rfl])
  rw [trim, hfront, h.trimBack_eq]

end Tidy

/-! ## Lines -/

theorem splitAt_append {sep : Char → Bool} {piece : List Char} (h : ∀ c ∈ piece, sep c = false)
    {c : Char} (hc : sep c = true) (rest : List Char) :
    splitAt sep (piece ++ c :: rest) = piece :: splitAt sep rest := by
  induction piece with
  | nil => rw [List.nil_append, splitAt, if_pos hc]
  | cons d piece ih =>
      have hsplit := ih fun e he => h e (List.mem_cons_of_mem _ he)
      rw [List.cons_append, splitAt, if_neg (by simp [h d List.mem_cons_self]), hsplit]

theorem splitAt_ne_nil (sep : Char → Bool) (cs : List Char) : splitAt sep cs ≠ [] := by
  induction cs with
  | nil => exact List.cons_ne_nil _ _
  | cons c rest ih =>
      rw [splitAt]
      split
      · exact List.cons_ne_nil _ _
      · split <;> exact List.cons_ne_nil _ _

theorem splitAt_cons (sep : Char → Bool) {c : Char} (hc : sep c = false) (cs : List Char) :
    ∃ piece pieces, splitAt sep (c :: cs) = (c :: piece) :: pieces ∧
      splitAt sep cs = piece :: pieces := by
  rw [splitAt, if_neg (by simp [hc])]
  cases hsplit : splitAt sep cs with
  | nil => exact absurd hsplit (splitAt_ne_nil sep cs)
  | cons piece pieces => exact ⟨piece, pieces, rfl, rfl⟩

/-- A line feed ends a line. -/
theorem lines_append {line : List Char} (h : '\n' ∉ line) (rest : List Char) :
    lines (line ++ '\n' :: rest) = dropReturn line :: lines rest := by
  have hpiece : ∀ c ∈ line, (c == '\n') = false := by
    intro c hc
    exact beq_false_of_ne fun heq => h (heq ▸ hc)
  rw [lines, lines, splitAt_append hpiece (by rfl)]
  cases hsplit : splitAt (· == '\n') rest with
  | nil => exact absurd hsplit (splitAt_ne_nil _ rest)
  | cons piece pieces => rfl

/-- How a line may stand in a text: with blanks after it, and at its end a line feed, perhaps with a
carriage return before it. -/
def Typed (line written : List Char) : Prop :=
  ∃ blanks ending, (∀ c ∈ blanks, isBlank c = true ∧ c ≠ '\n') ∧
    (ending = ['\n'] ∨ ending = ['\r', '\n']) ∧ written = line ++ blanks ++ ending

/-- A carriage return that belongs to the end of a line is one more blank. -/
theorem Typed.exists_blanks {line text : List Char} (h : Typed line text) (hone : '\n' ∉ line) :
    ∃ blanks, (∀ c ∈ blanks, isBlank c = true) ∧ '\n' ∉ line ++ blanks ∧
      text = line ++ blanks ++ ['\n'] := by
  obtain ⟨blanks, ending, hblanks, rfl | rfl, rfl⟩ := h
  · refine ⟨blanks, fun c hc => (hblanks c hc).1, fun hmem => ?_, rfl⟩
    exact (List.mem_append.1 hmem).elim hone fun hmem => (hblanks _ hmem).2 rfl
  · refine ⟨blanks ++ ['\r'], fun c hc => ?_, fun hmem => ?_, by simp⟩
    · rcases List.mem_append.1 hc with hc | hc
      · exact (hblanks c hc).1
      · obtain rfl := List.mem_singleton.1 hc
        rfl
    · rw [← List.append_assoc, List.mem_append, List.mem_append] at hmem
      rcases hmem with (hmem | hmem) | hmem
      · exact hone hmem
      · exact (hblanks _ hmem).2 rfl
      · simp at hmem

/-- The lines of a text that was put together line by line, and what comes after them. -/
theorem trimBack_lines {ls written : List (List Char)} (h : List.Forall₂ Typed ls written)
    (hone : ∀ line ∈ ls, '\n' ∉ line) (rest : List Char) :
    (lines (written.flatten ++ rest)).map trimBack =
      ls.map trimBack ++ (lines rest).map trimBack := by
  induction h with
  | nil => rfl
  | @cons line text ls written htyped _ ih =>
      have hrest := ih fun other hother => hone other (List.mem_cons_of_mem _ hother)
      obtain ⟨blanks, hblanks, hline, rfl⟩ := htyped.exists_blanks (hone line List.mem_cons_self)
      calc
        (lines (((line ++ blanks ++ ['\n']) :: written).flatten ++ rest)).map trimBack =
            (lines (line ++ blanks ++ '\n' :: (written.flatten ++ rest))).map trimBack := by simp
        _ = trimBack line :: (lines (written.flatten ++ rest)).map trimBack := by
          rw [lines_append hline, List.map_cons, trimBack_dropReturn, trimBack_append line hblanks]
        _ = (line :: ls).map trimBack ++ (lines rest).map trimBack := by
          rw [hrest, List.map_cons, List.cons_append]

/-- What a text starts with stays in front of its first line. -/
theorem trimBack_lines_cons {c d : Char} (hc : isBlank c = false) (hd : isBlank d = false)
    (cs : List Char) :
    ∃ tail others, (lines (c :: d :: cs)).map trimBack = (c :: d :: tail) :: others := by
  have hfeed : ∀ {e : Char}, isBlank e = false → (e == '\n') = false := by
    intro e he
    refine beq_false_of_ne fun heq => ?_
    rw [heq] at he
    cases he
  obtain ⟨_, pieces, hsplit, hrest⟩ := splitAt_cons (· == '\n') (hfeed hc) (d :: cs)
  obtain ⟨piece, _, hsplit', -⟩ := splitAt_cons (· == '\n') (hfeed hd) cs
  obtain ⟨rfl, rfl⟩ := List.cons.inj (hrest.symm.trans hsplit')
  rw [lines, hsplit]
  cases pieces with
  | nil => exact ⟨trimBack piece, [], by simp [lines.go, trimBack_cons hc, trimBack_cons hd]⟩
  | cons next pieces =>
      refine ⟨trimBack piece, (lines.go (next :: pieces)).map trimBack, ?_⟩
      rw [lines.go, List.map_cons, trimBack_dropReturn, trimBack_cons hc, trimBack_cons hd]
      simp

end Text
end BytecodeCoverage
