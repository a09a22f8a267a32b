import BytecodeCoverage.Proofs.SortedMap
import BytecodeCoverage.Proofs.SourceMap.Origin

/-!
# The output lines of a file

A source map can be asked for the origin of an output line, and for all output lines of each file.
Both go by the same ranges.  The list of a file holds the lines of its ranges one range after the
other, and a range lists the lines that it maps, except for the greatest line there is: the end of
a range is cut down to that line, and the end does not belong to the range.

**Main definitions.**
* `SourceMap.listed`: the output lines that are listed for a file.

**Results.**
* `LineRange.mem_outputs_iff`: the lines that a range lists, by the lines that it maps.
* `SourceMap.listed_eq`: the list of a file, by its ranges.
* `SourceMap.mem_listed_iff_maps`: the two questions agree for every line but the greatest.
* `SourceMap.unlisted_greatest`: they disagree for the greatest line.
-/

namespace BytecodeCoverage

namespace LineRange

variable {range : LineRange} {output : UInt32}

theorem covers_iff :
    range.Covers output ↔
      0 < range.increment.toNat ∧ range.outputStart.toNat ≤ output.toNat ∧
        output.toNat < range.outputEnd.toNat := by
  simp only [Covers, coversAt_iff, exists_and_left, exists_eq, and_true]

/-- A range whose input lines have no output lines ends where it starts. -/
theorem increment_pos_of_lt (h : range.outputStart.toNat < range.outputEnd.toNat) :
    0 < range.increment.toNat := by
  rw [toNat_outputEnd] at h
  refine Nat.pos_of_ne_zero fun hzero => ?_
  rw [hzero, Nat.mul_zero] at h
  omega

theorem mem_range'_map_ofNat {start length : Nat} (h : start + length ≤ UInt32.size) :
    output ∈ (List.range' start length).map UInt32.ofNat ↔
      start ≤ output.toNat ∧ output.toNat < start + length := by
  rw [List.mem_map]
  constructor
  · rintro ⟨n, hn, rfl⟩
    rw [List.mem_range'_1] at hn
    rw [UInt32.toNat_ofNat_of_lt' (Nat.lt_of_lt_of_le hn.2 h)]
    exact hn
  · intro hn
    exact ⟨output.toNat, List.mem_range'_1.2 hn, UInt32.ofNat_toNat⟩

/-- A range lists the lines that it maps, except for the greatest line there is. -/
theorem mem_outputs_iff :
    output ∈ range.outputs ↔ (range.map? output).isSome ∧ output.toNat ≠ maxWord := by
  have hword : output.toNat ≤ maxWord := Nat.le_of_lt_succ output.toNat_lt
  have hstart : range.outputStart.toNat ≤ maxWord := Nat.le_of_lt_succ range.outputStart.toNat_lt
  have hsize : maxWord < UInt32.size := by decide
  rw [isSome_map?_iff, covers_iff, outputs, mem_range'_map_ofNat (by omega)]
  constructor
  · rintro ⟨hle, hlt⟩
    exact ⟨⟨increment_pos_of_lt (by omega), hle, by omega⟩, by omega⟩
  · rintro ⟨⟨-, hle, hlt⟩, hne⟩
    exact ⟨hle, by omega⟩

end LineRange

namespace SourceMap

/-- The output lines that are listed under the identifier of a file. -/
def listed (map : SourceMap) (id : UInt32) : List UInt32 :=
  (map.outputsByFile.get? id).getD []

/-- Adding the lines of ranges to lists that are there already. -/
theorem getD_foldl_update (ranges : List LineRange) (byFile : SortedMap UInt32 (List UInt32))
    (id : UInt32) :
    ((ranges.foldl
        (fun byFile range => byFile.update range.file fun lines => lines.getD [] ++ range.outputs)
        byFile).get? id).getD [] =
      (byFile.get? id).getD [] ++
        (ranges.filter fun range => range.file == id).flatMap LineRange.outputs := by
  induction ranges generalizing byFile with
  | nil => simp
  | cons range rest ih =>
      rw [List.foldl_cons, ih, SortedMap.get?_update, List.filter_cons]
      by_cases hfile : range.file = id
      · subst hfile
        simp
      · have hne : compare id range.file ≠ .eq := fun heq =>
          hfile (Std.LawfulEqCmp.eq_of_compare heq).symm
        rw [if_neg hne, if_neg (by simpa using hfile)]

/-- The list of a file holds the lines of its ranges, one range after the other. -/
theorem listed_eq (map : SourceMap) (id : UInt32) :
    map.listed id = (map.ranges.filter fun range => range.file == id).flatMap LineRange.outputs :=
  getD_foldl_update map.ranges .empty id

variable {map : SourceMap} {id output : UInt32}

theorem mem_listed_iff :
    output ∈ map.listed id ↔
      (∃ range ∈ map.ranges, range.file = id ∧ (range.map? output).isSome) ∧
        output.toNat ≠ maxWord := by
  simp only [listed_eq, List.mem_flatMap, List.mem_filter, beq_iff_eq, LineRange.mem_outputs_iff]
  constructor
  · rintro ⟨range, ⟨hrange, hfile⟩, hmaps, hne⟩
    exact ⟨⟨range, hrange, hfile, hmaps⟩, hne⟩
  · rintro ⟨⟨range, hrange, hfile, hmaps⟩, hne⟩
    exact ⟨range, ⟨hrange, hfile⟩, hmaps, hne⟩

/-- The range that an origin comes from names the file of the origin. -/
theorem exists_range_of_origin? {file : MappedFile} {input : UInt32}
    (h : map.origin? output = some (file, input)) :
    ∃ range ∈ map.ranges, range.file = file.id ∧ (range.map? output).isSome := by
  obtain ⟨range, hrange, hfound⟩ := List.exists_of_findSome?_eq_some h
  have hfound : map.found? output range = some (file, input) := hfound
  obtain ⟨⟨_, _, _, hid, _⟩, k, hk, -⟩ := found?_eq_some_iff.1 hfound
  exact ⟨range, hrange, hid.symm, LineRange.isSome_map?_iff.2 ⟨k, hk⟩⟩

/-- The two questions agree for every line but the greatest there is.  A line is listed for a file
just if some range of the file maps it, and so a line that has an origin is listed for the file that
it comes from.  The greatest line is listed for no file. -/
theorem mem_listed_iff_maps (map : SourceMap) (output : UInt32) :
    (∀ id, output ∈ map.listed id ↔
      (∃ range ∈ map.ranges, range.file = id ∧ (range.map? output).isSome) ∧
        output.toNat ≠ maxWord) ∧
    (∀ file input, map.origin? output = some (file, input) →
      (output ∈ map.listed file.id ↔ output.toNat ≠ maxWord)) := by
  refine ⟨fun id => mem_listed_iff, fun file input horigin => ?_⟩
  rw [mem_listed_iff]
  exact and_iff_right (exists_range_of_origin? horigin)

/-- A map with one range, which has the greatest line only. -/
def lastLine : SourceMap where
  generated := "A"
  stratum := "Kotlin"
  files := [⟨1, "A.kt", none⟩]
  ranges := [⟨1, 1, 1, 4294967295, 1⟩]

/-- The greatest line has an origin and is mapped by a range of its file, but is not listed. -/
theorem unlisted_greatest :
    lastLine.origin? 4294967295 = some (⟨1, "A.kt", none⟩, 1) ∧
    (∃ range ∈ lastLine.ranges, range.file = 1 ∧ (range.map? 4294967295).isSome) ∧
    4294967295 ∉ lastLine.listed 1 := by
  decide

end SourceMap

end BytecodeCoverage
