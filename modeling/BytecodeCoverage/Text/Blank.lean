/-!
# Blank characters and lines

Blanks are the characters of Unicode's property White_Space. Lines end at a line feed, together
with one carriage return before it; a carriage return elsewhere is text.

**Results.**
* `Text.cutAt?_eq_some_iff`, `Text.cutAt?_eq_none_iff`: what is before the first separator, and what
  is after it.
* `Text.isBlank_of_isWhitespace`: ASCII white space is blank.
-/

namespace BytecodeCoverage
namespace Text

/-- The characters of the property White_Space. -/
def isBlank (c : Char) : Bool :=
  let n := c.toNat
  (9 ≤ n && n ≤ 13) || n == 0x20 || n == 0x85 || n == 0xa0 || n == 0x1680 ||
    (0x2000 ≤ n && n ≤ 0x200a) || n == 0x2028 || n == 0x2029 || n == 0x202f || n == 0x205f ||
    n == 0x3000

/-- Drops blanks at the front. -/
def trimFront (cs : List Char) : List Char :=
  cs.dropWhile isBlank

/-- Drops blanks at the end. -/
def trimBack : List Char → List Char
  | [] => []
  | c :: rest =>
      match trimBack rest with
      | [] => if isBlank c then [] else [c]
      | kept => c :: kept

/-- Drops blanks on both sides. -/
def trim (cs : List Char) : List Char :=
  trimBack (trimFront cs)

/-- The pieces between the characters that satisfy `sep`; always at least one piece. -/
def splitAt (sep : Char → Bool) : List Char → List (List Char)
  | [] => [[]]
  | c :: rest =>
      if sep c then [] :: splitAt sep rest
      else
        match splitAt sep rest with
        | [] => [[c]]
        | piece :: pieces => (c :: piece) :: pieces

/-- Cuts at the first occurrence of `sep`, which belongs to neither half. -/
def cutAt? (sep : Char) : List Char → Option (List Char × List Char)
  | [] => none
  | c :: rest =>
      if c = sep then some ([], rest)
      else (cutAt? sep rest).map fun halves => (c :: halves.1, halves.2)

/-- Drops one carriage return at the end. -/
def dropReturn : List Char → List Char
  | [] => []
  | ['\r'] => []
  | c :: rest => c :: dropReturn rest

/-- The lines of a text. A text that ends with a line feed has no empty line after it. -/
def lines (cs : List Char) : List (List Char) :=
  go (splitAt (· == '\n') cs)
where
  /-- The last piece is a line only if it holds a character, and keeps its carriage return. -/
  go : List (List Char) → List (List Char)
    | [] => []
    | [last] => if last.isEmpty then [] else [last]
    | piece :: pieces => dropReturn piece :: go pieces

theorem cutAt?_append {sep : Char} {before : List Char} (h : sep ∉ before) (after : List Char) :
    cutAt? sep (before ++ sep :: after) = some (before, after) := by
  induction before with
  | nil => simp [cutAt?]
  | cons c rest ih =>
      rw [List.mem_cons, not_or] at h
      rw [List.cons_append, cutAt?, if_neg (Ne.symm h.1), ih h.2]
      rfl

/-- What is before the first separator, and what is after it. -/
theorem cutAt?_eq_some_iff {sep : Char} {cs before after : List Char} :
    cutAt? sep cs = some (before, after) ↔ cs = before ++ sep :: after ∧ sep ∉ before := by
  constructor
  · intro h
    induction cs generalizing before with
    | nil => cases h
    | cons c rest ih =>
        rw [cutAt?] at h
        split at h
        · rename_i hc
          obtain ⟨rfl, rfl⟩ := Prod.mk.inj (Option.some.inj h)
          exact ⟨congrArg (· :: rest) hc, List.not_mem_nil⟩
        · rename_i hc
          obtain ⟨⟨front, back⟩, hcut, heq⟩ := Option.map_eq_some_iff.1 h
          obtain ⟨rfl, rfl⟩ := Prod.mk.inj heq
          obtain ⟨hrest, hfront⟩ := ih hcut
          refine ⟨congrArg (c :: ·) hrest, ?_⟩
          rw [List.mem_cons, not_or]
          exact ⟨Ne.symm hc, hfront⟩
  · rintro ⟨rfl, hbefore⟩
    exact cutAt?_append hbefore after

theorem cutAt?_eq_none_iff {sep : Char} {cs : List Char} : cutAt? sep cs = none ↔ sep ∉ cs := by
  induction cs with
  | nil => simp [cutAt?]
  | cons c rest ih =>
      by_cases hc : c = sep
      · simp [cutAt?, hc]
      · rw [cutAt?, if_neg hc, Option.map_eq_none_iff, ih, List.mem_cons, not_or]
        exact (and_iff_right (Ne.symm hc)).symm

theorem isBlank_of_isWhitespace {c : Char} (h : c.isWhitespace = true) : isBlank c = true := by
  simp only [Char.isWhitespace, Bool.or_eq_true, decide_eq_true_eq] at h
  rcases h with ((h | h) | h) | h <;> subst h <;> decide

end Text
end BytecodeCoverage
