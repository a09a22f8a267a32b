import BytecodeCoverage.Proofs.Text.Lines
import BytecodeCoverage.SourceMap.Parser

/-!
# Written source maps

A source map is written line by line: three lines of a header, the line that opens the stratum, the
files, the ranges, and a line that ends it.  A range can be written in several ways, as the file of
the range before and numbers that are one may be left out.  Each of its lines reads back.

**Main definitions.**
* `SourceMap.decimal`, `SourceMap.Suffix`: written numbers.
* `MappedFile.lines`, `LineRange.Written`, `SourceMap.RangesWritten`: written files and ranges.
* `MappedFile.Printable`, `SourceMap.Printable`: the names and paths that can be written.
* `SourceMap.Written`: written source maps.

**Results.**
* `SourceMap.readNumber_decimal`: a written number reads back.
* `SourceMap.readFile_entry`: so does the entry of a file.
* `LineRange.Written.readRange`: so does a range, however it is written.
* `SourceMap.exists_written`: every source map can be written.
-/

namespace BytecodeCoverage

open Text

/-! ## Numbers -/

namespace SourceMap

/-- A number in decimal digits, without zeros in front. -/
def decimal (n : UInt32) : List Char :=
  Nat.toDigits 10 n.toNat

theorem isDigit_of_mem_decimal {n : UInt32} {c : Char} (h : c ∈ decimal n) : c.isDigit = true :=
  Nat.isDigit_of_mem_toDigits (by decide) (by decide) h

/-- A sign that is no digit stands in no number. -/
theorem notMem_decimal {c : Char} (hc : c.isDigit = false) (n : UInt32) : c ∉ decimal n :=
  fun h => Bool.false_ne_true (hc.symm.trans (isDigit_of_mem_decimal h))

theorem isBlank_of_isDigit {c : Char} (h : c.isDigit = true) : isBlank c = false := by
  obtain ⟨hge, hle⟩ := Bool.and_eq_true_iff.1 h
  have hge : 48 ≤ c.toNat := of_decide_eq_true hge
  have hle : c.toNat ≤ 57 := of_decide_eq_true hle
  simp only [isBlank, Bool.or_eq_false_iff, Bool.and_eq_false_iff, beq_eq_false_iff_ne,
    decide_eq_false_iff_not]
  omega

theorem tidy_decimal (n : UInt32) : Tidy (decimal n) :=
  .of_forall fun _ hc => isBlank_of_isDigit (isDigit_of_mem_decimal hc)

/-- A line that begins with a digit. -/
def Numbered (line : List Char) : Prop :=
  ∃ c rest, line = c :: rest ∧ c.isDigit = true

theorem numbered_decimal (n : UInt32) (rest : List Char) : Numbered (decimal n ++ rest) := by
  cases hdecimal : decimal n with
  | nil => exact absurd hdecimal Nat.toDigits_ne_nil
  | cons c more =>
      exact ⟨c, more ++ rest, rfl, isDigit_of_mem_decimal (hdecimal ▸ List.mem_cons_self)⟩

namespace Numbered

variable {line : List Char}

theorem ne_nil (h : Numbered line) : line ≠ [] := by
  obtain ⟨c, rest, rfl, -⟩ := h
  exact List.cons_ne_nil c rest

theorem not_isPrefix (h : Numbered line) {c : Char} (hc : c.isDigit = false) (cs : List Char) :
    ¬c :: cs <+: line := by
  obtain ⟨digit, rest, rfl, hdigit⟩ := h
  rw [List.cons_prefix_cons]
  rintro ⟨rfl, -⟩
  exact Bool.false_ne_true (hc.symm.trans hdigit)

end Numbered

theorem digit?_digitChar {d : Nat} (h : d < 10) : digit? (Nat.digitChar d) = some d := by
  revert d
  decide

/-- Reading the digits of a number leaves what comes after them. -/
theorem digits?_toDigits {n : Nat} (h : n ≤ maxWord) (rest : List Char) :
    digits? 0 (Nat.toDigits 10 n ++ rest) = digits? n rest := by
  induction n using Nat.strongRecOn generalizing rest with
  | ind n ih =>
      rw [Nat.toDigits_eq_if (by decide)]
      split
      · rename_i hlt
        rw [List.singleton_append, digits?, digit?_digitChar hlt, Option.bind_some, Nat.mul_zero,
          Nat.zero_add, if_pos h]
      · -- The digits of the quotient come first, and the last digit is read with what they spell.
        rename_i hge
        have hdiv : n / 10 < n := Nat.div_lt_self (by omega) (by decide)
        rw [List.append_assoc, ih (n / 10) hdiv (Nat.le_trans (Nat.le_of_lt hdiv) h),
          List.singleton_append, digits?, digit?_digitChar (Nat.mod_lt n (by decide)),
          Option.bind_some, Nat.div_add_mod, if_pos h]

/-- A written number reads back. -/
theorem readNumber_decimal (n : UInt32) : readNumber (decimal n) = .ok n := by
  have hdigits : digits? 0 (decimal n) = some n := by
    have h := digits?_toDigits (n := n.toNat) (Nat.le_of_lt_succ n.toNat_lt) []
    rw [List.append_nil] at h
    rw [decimal, h, digits?, UInt32.ofNat_toNat]
  have hword : word? (decimal n) = digits? 0 (decimal n) := by
    have hnumbered := numbered_decimal n []
    rw [List.append_nil] at hnumbered
    obtain ⟨c, rest, hdecimal, hdigit⟩ := hnumbered
    rw [hdecimal]
    unfold word?
    split <;> simp_all
  rw [readNumber, (tidy_decimal n).trim_eq, hword, hdigits]

/-! ## Ranges -/

/-- How a number may be written behind another one: with the sign that sets it off, or not at all if
it is the one that is expected. -/
inductive Suffix (sep : Char) (expected : UInt32) : UInt32 → List Char → Prop
  | written (n : UInt32) : Suffix sep expected n (sep :: decimal n)
  | omitted : Suffix sep expected expected []

namespace Suffix

variable {sep : Char} {expected n : UInt32} {suffix : List Char}

theorem notMem (h : Suffix sep expected n suffix) {c : Char} (hne : c ≠ sep)
    (hc : c.isDigit = false) : c ∉ suffix := by
  cases h with
  | written => exact List.not_mem_cons_of_ne_of_not_mem hne (notMem_decimal hc n)
  | omitted => exact List.not_mem_nil

theorem isBlank_eq (h : Suffix sep expected n suffix) (hsep : isBlank sep = false) :
    ∀ c ∈ suffix, isBlank c = false := by
  intro c hc
  cases h with
  | written =>
      rcases List.mem_cons.1 hc with rfl | hc
      · exact hsep
      · exact isBlank_of_isDigit (isDigit_of_mem_decimal hc)
  | omitted => cases hc

/-- A number and what is written behind it. -/
theorem readPair (h : Suffix sep expected n suffix) (hsep : sep.isDigit = false) (start : UInt32) :
    readPair sep expected (decimal start ++ suffix) = .ok (start, n) := by
  cases h with
  | written =>
      simp only [SourceMap.readPair, cutAt?_append (notMem_decimal hsep start), readNumber_decimal]
      rfl
  | omitted =>
      simp only [SourceMap.readPair, List.append_nil,
        cutAt?_eq_none_iff.2 (notMem_decimal hsep start), readNumber_decimal]
      rfl

end Suffix

end SourceMap

open SourceMap

/-- How a range may be written after a range of the file `last`. -/
def LineRange.Written (last : UInt32) (range : LineRange) (line : List Char) : Prop :=
  ∃ file count increment, Suffix '#' last range.file file ∧ Suffix ',' 1 range.count count ∧
    Suffix ',' 1 range.increment increment ∧
    line = (decimal range.inputStart ++ file ++ count) ++
      ':' :: (decimal range.outputStart ++ increment)

/-- However a range is written, it reads back. -/
theorem LineRange.Written.readRange {last : UInt32} {range : LineRange} {line : List Char}
    (h : range.Written last line) : readRange last line = .ok range := by
  obtain ⟨file, count, increment, hfile, hcount, hincrement, rfl⟩ := h
  have hcomma : ',' ∉ decimal range.inputStart ++ file := fun h =>
    (List.mem_append.1 h).elim (notMem_decimal rfl _) (hfile.notMem (by decide) rfl)
  have hinput : ':' ∉ decimal range.inputStart ++ file ++ count := fun h =>
    (List.mem_append.1 h).elim
      (fun h => (List.mem_append.1 h).elim (notMem_decimal rfl _) (hfile.notMem (by decide) rfl))
      (hcount.notMem (by decide) rfl)
  have hstart := hfile.readPair rfl range.inputStart
  have houtput := hincrement.readPair rfl range.outputStart
  rw [SourceMap.readRange, cutAt?_append hinput]
  obtain ⟨fileId, inputStart, n, outputStart, step⟩ := range
  cases hcount with
  | written =>
      simp only [cutAt?_append hcomma, readNumber_decimal, hstart, houtput, bind, Except.bind,
        Except.map]
  | omitted =>
      simp only [List.append_nil, cutAt?_eq_none_iff.2 hcomma, hstart, houtput, bind, Except.bind]
      rfl

theorem LineRange.Written.numbered {last : UInt32} {range : LineRange} {line : List Char}
    (h : range.Written last line) : Numbered line := by
  obtain ⟨file, count, increment, -, -, -, rfl⟩ := h
  rw [List.append_assoc, List.append_assoc]
  exact numbered_decimal _ _

theorem LineRange.Written.tidy {last : UInt32} {range : LineRange} {line : List Char}
    (h : range.Written last line) : Tidy line := by
  obtain ⟨file, count, increment, hfile, hcount, hincrement, rfl⟩ := h
  have hdecimal : ∀ (n : UInt32), ∀ c ∈ decimal n, isBlank c = false := fun n c hc =>
    isBlank_of_isDigit (isDigit_of_mem_decimal hc)
  refine .of_forall fun c hc => ?_
  rcases List.mem_append.1 hc with hc | hc
  · rcases List.mem_append.1 hc with hc | hc
    · exact (List.mem_append.1 hc).elim (hdecimal _ c) (hfile.isBlank_eq rfl c)
    · exact hcount.isBlank_eq rfl c hc
  · rcases List.mem_cons.1 hc with rfl | hc
    · rfl
    · exact (List.mem_append.1 hc).elim (hdecimal _ c) (hincrement.isBlank_eq rfl c)

/-- How ranges may be written, each on a line, after a range of the file `last`. -/
inductive SourceMap.RangesWritten : UInt32 → List LineRange → List (List Char) → Prop
  | nil {last : UInt32} : RangesWritten last [] []
  | cons {last : UInt32} {range : LineRange} {line : List Char} {ranges : List LineRange}
      {lines : List (List Char)} :
      range.Written last line → RangesWritten range.file ranges lines →
      RangesWritten last (range :: ranges) (line :: lines)

theorem SourceMap.RangesWritten.tidy {last : UInt32} {ranges : List LineRange}
    {lines : List (List Char)} (h : RangesWritten last ranges lines) : ∀ line ∈ lines, Tidy line := by
  induction h with
  | nil => simp
  | cons hline _ ih => exact List.forall_mem_cons.2 ⟨hline.tidy, ih⟩

/-! ## Files -/

/-- The entry of a file. -/
def MappedFile.entry (file : MappedFile) : List Char :=
  decimal file.id ++ ' ' :: file.name.toList

theorem MappedFile.numbered_entry (file : MappedFile) : Numbered file.entry :=
  numbered_decimal file.id _

/-- The lines of a file: its entry, and its path if there is one. -/
def MappedFile.lines (file : MappedFile) : List (List Char) :=
  match file.path with
  | none => [file.entry]
  | some path => ['+' :: ' ' :: file.entry, path.toList]

/-- The name and the path of a file can be told from what stands around them. -/
structure MappedFile.Printable (file : MappedFile) : Prop where
  name : Tidy file.name.toList
  name_ne : file.name ≠ ""
  path : ∀ path ∈ file.path, Tidy path.toList
  path_ne : ∀ path ∈ file.path, path ≠ ""
  /-- The path does not look like the beginning of a section or of a file. -/
  path_start : ∀ path ∈ file.path, ¬['*'] <+: path.toList ∧ ¬['+', ' '] <+: path.toList

namespace MappedFile.Printable

variable {file : MappedFile}

theorem tidy_entry (h : file.Printable) : Tidy file.entry := by
  obtain ⟨digit, rest, hentry, hdigit⟩ := file.numbered_entry
  refine ⟨fun hmem => ?_, fun c hc => ?_, fun c hc => ?_⟩
  · rcases List.mem_append.1 hmem with hmem | hmem
    · exact notMem_decimal rfl _ hmem
    · exact List.not_mem_cons_of_ne_of_not_mem (by decide) h.name.oneLine hmem
  · rw [hentry] at hc
    obtain rfl := Option.some.inj hc
    exact isBlank_of_isDigit hdigit
  · have hne : file.name.toList ≠ [] := fun hnil => h.name_ne (String.toList_eq_nil_iff.1 hnil)
    refine h.name.last c ?_
    rw [entry, List.getLast?_append_cons, List.getLast?_cons_of_ne_nil hne] at hc
    exact hc

theorem tidy_lines (h : file.Printable) : ∀ line ∈ file.lines, Tidy line := by
  intro line hline
  rw [lines] at hline
  cases hpath : file.path with
  | none =>
      rw [hpath] at hline
      obtain rfl := List.mem_singleton.1 hline
      exact h.tidy_entry
  | some path =>
      rw [hpath] at hline
      rcases List.mem_cons.1 hline with rfl | hline
      · have hentry := h.tidy_entry
        obtain ⟨digit, rest, heq, -⟩ := file.numbered_entry
        rw [heq] at hentry ⊢
        exact ⟨by simpa using hentry.oneLine, by simp [isBlank], hentry.last⟩
      · obtain rfl := List.mem_singleton.1 hline
        exact h.path path hpath

theorem readFile (h : file.Printable) : readFile file.entry = .ok { file with path := none } := by
  simp only [SourceMap.readFile, h.tidy_entry.trim_eq]
  rw [entry, cutAt?_append (notMem_decimal rfl _)]
  simp only [readNumber_decimal, h.name.trim_eq, String.ofList_toList]
  rfl

end MappedFile.Printable

/-! ## Source maps -/

namespace SourceMap

/-- The names of a source map can be told from what stands around them. -/
structure Printable (map : SourceMap) : Prop where
  generated : Tidy map.generated.toList
  stratum : Tidy map.stratum.toList
  files : ∀ file ∈ map.files, file.Printable

/-- The lines of the files and of the ranges. -/
def sections (map : SourceMap) (ranges : List (List Char)) : List (List Char) :=
  "*F".toList :: map.files.flatMap MappedFile.lines ++ "*L".toList :: ranges

/-- The lines of a source map before the one that ends it. -/
def layout (map : SourceMap) (heading : List Char) (ranges : List (List Char)) : List (List Char) :=
  "SMAP".toList :: map.generated.toList :: map.stratum.toList :: ('*' :: 'S' :: heading) ::
    map.sections ranges

/-- A written source map: its lines, with any blanks at their ends, a line that ends the map or opens
another stratum, and any text after it. -/
def Written (map : SourceMap) (text : String) : Prop :=
  ∃ heading ranges written last rest, '\n' ∉ heading ∧ RangesWritten 0 map.ranges ranges ∧
    List.Forall₂ Typed (map.layout heading ranges) written ∧ (last = 'E' ∨ last = 'S') ∧
    text.toList = written.flatten ++ '*' :: last :: rest

theorem exists_rangesWritten (last : UInt32) (ranges : List LineRange) :
    ∃ lines, RangesWritten last ranges lines := by
  induction ranges generalizing last with
  | nil => exact ⟨[], .nil⟩
  | cons range ranges ih =>
      obtain ⟨lines, hlines⟩ := ih range.file
      exact ⟨_, .cons ⟨_, _, _, .written _, .written _, .written _, rfl⟩ hlines⟩

/-- Every source map can be written. -/
theorem exists_written (map : SourceMap) : ∃ text, map.Written text := by
  obtain ⟨ranges, hranges⟩ := exists_rangesWritten 0 map.ranges
  have htyped : List.Forall₂ Typed (map.layout [] ranges)
      ((map.layout [] ranges).map fun line => line ++ [] ++ ['\n']) := by
    rw [List.forall₂_map_right_iff, List.forall₂_same]
    exact fun line _ => ⟨[], ['\n'], by simp, .inl rfl, rfl⟩
  exact ⟨String.ofList _, [], ranges, _, 'E', [], List.not_mem_nil, hranges, htyped, .inl rfl,
    String.toList_ofList⟩

namespace Printable

variable {map : SourceMap} {ranges : List (List Char)} (h : map.Printable)
  (hranges : RangesWritten 0 map.ranges ranges)

include h hranges

theorem tidy_sections : ∀ line ∈ map.sections ranges, Tidy line := by
  intro line hline
  rcases List.mem_append.1 hline with hline | hline
  · rcases List.mem_cons.1 hline with rfl | hline
    · exact .of_all (by decide)
    · obtain ⟨file, hfile, hline⟩ := List.mem_flatMap.1 hline
      exact (h.files file hfile).tidy_lines line hline
  · rcases List.mem_cons.1 hline with rfl | hline
    · exact .of_all (by decide)
    · exact hranges.tidy line hline

/-- No line of a source map has a line feed in it. -/
theorem oneLine_layout {heading : List Char} (hheading : '\n' ∉ heading) :
    ∀ line ∈ map.layout heading ranges, '\n' ∉ line := by
  simp only [layout, List.forall_mem_cons]
  exact ⟨by decide, h.generated.oneLine, h.stratum.oneLine, by simpa using hheading,
    fun line hline => (h.tidy_sections hranges line hline).oneLine⟩

/-- Only the heading of the stratum can have blanks at its end. -/
theorem trimBack_layout (heading : List Char) :
    (map.layout heading ranges).map trimBack = map.layout (trimBack heading) ranges := by
  have hsections : (map.sections ranges).map trimBack = map.sections ranges :=
    (List.map_congr_left fun line hline => (h.tidy_sections hranges line hline).trimBack_eq).trans
      (List.map_id _)
  simp only [layout, List.map_cons, hsections, h.generated.trimBack_eq, h.stratum.trimBack_eq,
    trimBack_cons (c := '*') rfl, trimBack_cons (c := 'S') rfl]
  rfl

end Printable

end SourceMap

end BytecodeCoverage
