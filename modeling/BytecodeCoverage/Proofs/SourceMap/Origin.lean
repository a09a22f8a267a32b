import BytecodeCoverage.SourceMap.Basic

/-!
# Where an output line comes from

The input lines of a range are numbered from zero on, and each has `increment` output lines.  An
output line comes from the first range that covers it and whose file is declared.  All numbers are
words, and the products of two of them fit into the double words in which they are computed.

**Main definitions.**
* `LineRange.CoversAt`: an output line is one of those of an input line.
* `SourceMap.Declares`, `SourceMap.Decides`: the file of an identifier, the range of an output line.
* `SourceMap.originWithin?`: the look-up by operations that may leave the range of their words.

**Results.**
* `LineRange.toNat_outputEnd`: the end of a range is computed exactly.
* `LineRange.map?_eq_some_iff`: the input line of an output line.
* `LineRange.mapWithin?_eq`: no operation leaves the range of its words.
* `SourceMap.origin?_iff`: the look-up for all words.
-/

namespace BytecodeCoverage

/-! ## Ranges -/

namespace LineRange

variable (range : LineRange) (output : UInt32)

/-- The output line is one of those of the input line at place `k` of the range. -/
def CoversAt (k : Nat) : Prop :=
  k < range.count.toNat ∧
    range.outputStart.toNat + k * range.increment.toNat ≤ output.toNat ∧
    output.toNat < range.outputStart.toNat + (k + 1) * range.increment.toNat

/-- The output line is one of those of an input line of the range. -/
def Covers : Prop :=
  ∃ k, range.CoversAt output k

/-- The product of two words leaves room for one more word below the double words. -/
theorem count_mul_increment_le :
    range.count.toNat * range.increment.toNat ≤ (UInt32.size - 1) * (UInt32.size - 1) :=
  Nat.mul_le_mul (Nat.le_sub_one_of_lt range.count.toNat_lt)
    (Nat.le_sub_one_of_lt range.increment.toNat_lt)

theorem toNat_product :
    (range.count.toUInt64 * range.increment.toUInt64).toNat =
      range.count.toNat * range.increment.toNat := by
  have hle := range.count_mul_increment_le
  rw [UInt64.toNat_mul, UInt32.toNat_toUInt64, UInt32.toNat_toUInt64]
  exact Nat.mod_eq_of_lt (Nat.lt_of_le_of_lt hle (by decide))

theorem toNat_outputEnd :
    range.outputEnd.toNat =
      range.outputStart.toNat + range.count.toNat * range.increment.toNat := by
  have hle := range.count_mul_increment_le
  have hstart := range.outputStart.toNat_lt
  rw [outputEnd, UInt64.toNat_add, toNat_product, UInt32.toNat_toUInt64]
  refine Nat.mod_eq_of_lt ?_
  simp only [UInt32.size] at hle
  omega

variable {range output}

/-- A range that covers a line has output lines for each of its input lines. -/
theorem CoversAt.increment_pos {k : Nat} (h : range.CoversAt output k) :
    0 < range.increment.toNat := by
  obtain ⟨-, hstart, hend⟩ := h
  rw [Nat.succ_mul] at hend
  omega

/-- The input line of an output line is found by division. -/
theorem coversAt_iff {k : Nat} :
    range.CoversAt output k ↔
      0 < range.increment.toNat ∧ range.outputStart.toNat ≤ output.toNat ∧
        output.toNat < range.outputEnd.toNat ∧
        k = (output.toNat - range.outputStart.toNat) / range.increment.toNat := by
  constructor
  · intro h
    have hpos := h.increment_pos
    obtain ⟨hk, hstart, hend⟩ := h
    have hlast : (k + 1) * range.increment.toNat ≤ range.count.toNat * range.increment.toNat :=
      Nat.mul_le_mul_right _ hk
    refine ⟨hpos, Nat.le_trans (Nat.le_add_right _ _) hstart, ?_, ?_⟩
    · rw [toNat_outputEnd]
      omega
    · symm
      rw [Nat.div_eq_iff hpos]
      rw [Nat.succ_mul] at hend
      omega
  · rintro ⟨hpos, hstart, hend, rfl⟩
    rw [toNat_outputEnd] at hend
    have hfloor := Nat.div_mul_le_self (output.toNat - range.outputStart.toNat)
      range.increment.toNat
    have hceil := Nat.lt_div_mul_add hpos (a := output.toNat - range.outputStart.toNat)
    refine ⟨?_, by omega, ?_⟩
    · rw [Nat.div_lt_iff_lt_mul hpos]
      omega
    · rw [Nat.succ_mul]
      omega

/-- The tests of the look-up, in numbers. -/
theorem not_refused_iff :
    ¬(range.increment = 0 ∨ output < range.outputStart ∨ range.outputEnd ≤ output.toUInt64) ↔
      0 < range.increment.toNat ∧ range.outputStart.toNat ≤ output.toNat ∧
        output.toNat < range.outputEnd.toNat := by
  rw [← UInt32.toNat_inj, UInt32.lt_iff_toNat_lt, UInt64.le_iff_toNat_le, UInt32.toNat_toUInt64,
    UInt32.toNat_zero]
  omega

theorem map?_eq_some_iff {input : UInt32} :
    range.map? output = some input ↔ ∃ k, range.CoversAt output k ∧
      input.toNat = min (range.inputStart.toNat + k) maxWord := by
  simp only [coversAt_iff, and_assoc, exists_and_left, exists_eq_left]
  unfold map?
  split
  · rename_i hrefused
    refine ⟨nofun, ?_⟩
    rintro ⟨hpos, hstart, hend, -⟩
    exact absurd hrefused (not_refused_iff.2 ⟨hpos, hstart, hend⟩)
  · rename_i hrefused
    obtain ⟨hpos, hstart, hend⟩ := not_refused_iff.1 hrefused
    have hplace : ((output - range.outputStart) / range.increment).toNat =
        (output.toNat - range.outputStart.toNat) / range.increment.toNat := by
      rw [UInt32.toNat_div, UInt32.toNat_sub_of_le _ _ (UInt32.le_iff_toNat_le.2 hstart)]
    rw [Option.some.injEq, ← UInt32.toNat_inj, toNat_satAdd, hplace]
    exact ⟨fun h => ⟨hpos, hstart, hend, h.symm⟩, fun h => h.2.2.2.symm⟩

theorem isSome_map?_iff : (range.map? output).isSome ↔ range.Covers output := by
  rw [Option.isSome_iff_exists]
  constructor
  · rintro ⟨input, hinput⟩
    obtain ⟨k, hk, -⟩ := map?_eq_some_iff.1 hinput
    exact ⟨k, hk⟩
  · rintro ⟨k, hk⟩
    have hword : min (range.inputStart.toNat + k) maxWord < UInt32.size :=
      Nat.lt_of_le_of_lt (Nat.min_le_right _ _) (by decide)
    exact ⟨UInt32.ofNat _, map?_eq_some_iff.2 ⟨k, hk, UInt32.toNat_ofNat_of_lt' hword⟩⟩

end LineRange

/-! ## Operations that may leave the range of their words -/

/-- The product of two double words, if it is one. -/
def mulWithin? (a b : UInt64) : Option UInt64 :=
  if a.toNat * b.toNat < UInt64.size then some (a * b) else none

/-- The sum of two double words, if it is one. -/
def addWithin? (a b : UInt64) : Option UInt64 :=
  if a.toNat + b.toNat < UInt64.size then some (a + b) else none

/-- The difference of two words, if it is not negative. -/
def subWithin? (a b : UInt32) : Option UInt32 :=
  if b.toNat ≤ a.toNat then some (a - b) else none

/-- The quotient of two words, if there is one. -/
def divWithin? (a b : UInt32) : Option UInt32 :=
  if b = 0 then none else some (a / b)

namespace LineRange

/-- The first output line after the range; nothing if an operation leaves its range. -/
def outputEndWithin? (range : LineRange) : Option UInt64 :=
  (mulWithin? range.count.toUInt64 range.increment.toUInt64).bind fun length =>
    addWithin? range.outputStart.toUInt64 length

/-- The input line of an output line; nothing if an operation leaves its range. The tests are made
one after the other, and no operation is performed before its turn. -/
def mapWithin? (range : LineRange) (output : UInt32) : Option (Option UInt32) :=
  if range.increment = 0 ∨ output < range.outputStart then some none
  else
    range.outputEndWithin?.bind fun stop =>
      if stop ≤ output.toUInt64 then some none
      else
        (subWithin? output range.outputStart).bind fun offset =>
          (divWithin? offset range.increment).map fun place =>
            some (satAdd range.inputStart place)

theorem outputEndWithin?_eq (range : LineRange) :
    range.outputEndWithin? = some range.outputEnd := by
  have hproduct := range.toNat_product
  have hend := range.toNat_outputEnd
  have hlt := range.outputEnd.toNat_lt
  rw [outputEndWithin?, mulWithin?, if_pos, Option.bind_some, addWithin?, if_pos]
  · rfl
  · rw [hproduct, UInt32.toNat_toUInt64, ← hend]
    exact hlt
  · rw [UInt32.toNat_toUInt64, UInt32.toNat_toUInt64]
    refine Nat.lt_of_le_of_lt ?_ hlt
    rw [hend]
    exact Nat.le_add_left _ _

/-- No operation of the look-up in a range leaves the range of its words. -/
theorem mapWithin?_eq (range : LineRange) (output : UInt32) :
    range.mapWithin? output = some (range.map? output) := by
  rw [mapWithin?, map?, outputEndWithin?_eq, Option.bind_some]
  by_cases hfirst : range.increment = 0 ∨ output < range.outputStart
  · rw [if_pos hfirst, if_pos (hfirst.elim .inl fun h => .inr (.inl h))]
  · rw [not_or] at hfirst
    obtain ⟨hincrement, hstart⟩ := hfirst
    rw [if_neg (not_or.2 ⟨hincrement, hstart⟩)]
    by_cases hend : range.outputEnd ≤ output.toUInt64
    · rw [if_pos hend, if_pos (.inr (.inr hend))]
    · have hle : range.outputStart.toNat ≤ output.toNat :=
        UInt32.le_iff_toNat_le.1 (UInt32.not_lt.1 hstart)
      rw [if_neg hend, subWithin?, if_pos hle, Option.bind_some, divWithin?, if_neg hincrement,
        Option.map_some, if_neg (not_or.2 ⟨hincrement, not_or.2 ⟨hstart, hend⟩⟩)]

end LineRange

/-! ## Source maps -/

namespace SourceMap

variable (map : SourceMap)

/-- The file is the first one that is declared with the identifier. -/
def Declares (id : UInt32) (file : MappedFile) : Prop :=
  ∃ before after, map.files = before ++ file :: after ∧ file.id = id ∧
    ∀ other ∈ before, other.id ≠ id

/-- The range is the first one that covers the output line and whose file is declared. -/
def Decides (output : UInt32) (range : LineRange) : Prop :=
  ∃ before after, map.ranges = before ++ range :: after ∧
    (range.Covers output ∧ ∃ file, map.Declares range.file file) ∧
    ∀ other ∈ before, ¬(other.Covers output ∧ ∃ file, map.Declares other.file file)

/-- The file and line that an output line has by a range, if the file is declared. -/
def found? (output : UInt32) (range : LineRange) : Option (MappedFile × UInt32) :=
  (range.map? output).bind fun input => (map.file? range.file).map fun file => (file, input)

/-- The look-up in the ranges one after the other; nothing if an operation leaves its range. -/
def originWithin? (output : UInt32) : List LineRange → Option (Option (MappedFile × UInt32))
  | [] => some none
  | range :: rest =>
      (range.mapWithin? output).bind fun input =>
        match input.bind fun line => (map.file? range.file).map fun file => (file, line) with
        | some found => some (some found)
        | none => originWithin? output rest

theorem originWithin?_eq (output : UInt32) (ranges : List LineRange) :
    map.originWithin? output ranges = some (ranges.findSome? (map.found? output)) := by
  induction ranges with
  | nil => rfl
  | cons range rest ih =>
      rw [originWithin?, range.mapWithin?_eq, Option.bind_some, List.findSome?_cons, ← found?]
      cases map.found? output range with
      | some found => rfl
      | none => exact ih

variable {map} {range : LineRange} {output : UInt32}

theorem file?_eq_some_iff {id : UInt32} {file : MappedFile} :
    map.file? id = some file ↔ map.Declares id file := by
  rw [file?, List.find?_eq_some_iff_append, Declares]
  simp only [beq_iff_eq, Bool.not_eq_true', beq_eq_false_iff_ne]
  constructor
  · rintro ⟨hid, before, after, hfiles, hbefore⟩
    exact ⟨before, after, hfiles, hid, hbefore⟩
  · rintro ⟨before, after, hfiles, hid, hbefore⟩
    exact ⟨hid, before, after, hfiles, hbefore⟩

theorem found?_eq_some_iff {file : MappedFile} {input : UInt32} :
    map.found? output range = some (file, input) ↔
      map.Declares range.file file ∧ ∃ k, range.CoversAt output k ∧
        input.toNat = min (range.inputStart.toNat + k) maxWord := by
  rw [← LineRange.map?_eq_some_iff, ← file?_eq_some_iff, found?, Option.bind_eq_some_iff]
  constructor
  · rintro ⟨line, hline, hfile⟩
    obtain ⟨_, hdeclared, ⟨⟩⟩ := Option.map_eq_some_iff.1 hfile
    exact ⟨hdeclared, hline⟩
  · rintro ⟨hdeclared, hline⟩
    exact ⟨input, hline, by rw [hdeclared, Option.map_some]⟩

theorem isSome_found?_iff :
    (map.found? output range).isSome ↔
      range.Covers output ∧ ∃ file, map.Declares range.file file := by
  simp only [found?, ← range.isSome_map?_iff, ← file?_eq_some_iff, Option.isSome_bind,
    Option.isSome_map, ← Option.isSome_iff_exists]
  cases range.map? output <;> simp

/-- The range that decides is the first one that has the output line. -/
theorem decides_iff :
    map.Decides output range ↔ ∃ before after, map.ranges = before ++ range :: after ∧
      (map.found? output range).isSome ∧ ∀ other ∈ before, map.found? output other = none := by
  simp only [Decides, ← isSome_found?_iff, Option.not_isSome_iff_eq_none]

theorem exists_decides_iff :
    (∃ range, map.Decides output range) ↔ (map.origin? output).isSome := by
  rw [Option.isSome_iff_exists]
  constructor
  · rintro ⟨range, hdecides⟩
    obtain ⟨before, after, hranges, hfound, hbefore⟩ := decides_iff.1 hdecides
    obtain ⟨found, hfound⟩ := Option.isSome_iff_exists.1 hfound
    exact ⟨found, List.findSome?_eq_some_iff.2 ⟨before, range, after, hranges, hfound, hbefore⟩⟩
  · rintro ⟨found, horigin⟩
    obtain ⟨before, range, after, hranges, hfound, hbefore⟩ :=
      List.findSome?_eq_some_iff.1 horigin
    exact ⟨range, decides_iff.2
      ⟨before, after, hranges, Option.isSome_iff_exists.2 ⟨found, hfound⟩, hbefore⟩⟩

/-- An output line comes from the first range that covers it and whose file is declared: from the
first file that is declared with the range's identifier, and from the input line among whose output
lines it is, or the greatest line there is if that one is greater.  It comes from nowhere if there
is no such range.  No operation of the look-up leaves the range of its words, and none divides by
zero. -/
theorem origin?_iff (map : SourceMap) (output : UInt32) :
    (∀ file input, map.origin? output = some (file, input) ↔
      ∃ range k, map.Decides output range ∧ map.Declares range.file file ∧
        range.CoversAt output k ∧ input.toNat = min (range.inputStart.toNat + k) maxWord) ∧
    (map.origin? output = none ↔ ¬∃ range, map.Decides output range) ∧
    map.originWithin? output map.ranges = some (map.origin? output) := by
  refine ⟨fun file input => ?_, ?_, map.originWithin?_eq output map.ranges⟩
  · constructor
    · intro horigin
      obtain ⟨before, range, after, hranges, hfound, hbefore⟩ :=
        List.findSome?_eq_some_iff.1 horigin
      have hfound : map.found? output range = some (file, input) := hfound
      obtain ⟨hdeclared, k, hk, hinput⟩ := found?_eq_some_iff.1 hfound
      exact ⟨range, k, decides_iff.2 ⟨before, after, hranges, hfound ▸ rfl, hbefore⟩, hdeclared, hk,
        hinput⟩
    · rintro ⟨range, k, hdecides, hdeclared, hk, hinput⟩
      obtain ⟨before, after, hranges, -, hbefore⟩ := decides_iff.1 hdecides
      exact List.findSome?_eq_some_iff.2 ⟨before, range, after, hranges,
        found?_eq_some_iff.2 ⟨hdeclared, k, hk, hinput⟩, hbefore⟩
  · rw [exists_decides_iff, Option.not_isSome_iff_eq_none]

end SourceMap
end BytecodeCoverage
