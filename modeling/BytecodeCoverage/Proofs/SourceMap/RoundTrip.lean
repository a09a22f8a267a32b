import BytecodeCoverage.Proofs.SourceMap.Written

/-!
# Source maps read back

**Results.**
* `SourceMap.Progress.readAll_files`, `SourceMap.Progress.readAll_ranges`: reading sections.
* `SourceMap.exists_readAll`: reading what stands between the header and the end.
* `SourceMap.parse_written`: every written source map reads back.
-/

namespace BytecodeCoverage
namespace SourceMap

open Text

namespace Progress

variable (p : Progress) (rest : List (List Char))

/-- A line that opens no section is read by the section it stands in. -/
theorem readAll_line {cs : List Char} (hne : cs ≠ []) (hstar : ¬['*'] <+: cs) {q : Progress}
    (h : p.entryLine cs = .ok q) : p.readAll (cs :: rest) = q.readAll rest := by
  rw [readAll, h]
  · rintro name rfl
    exact hstar ⟨name, rfl⟩
  · exact hne

/-! ## Files -/

/-- A line that does not begin with a plus sign and a blank is a path if one is expected. -/
theorem fileLine_of_not_isPrefix {cs : List Char} (h : ¬['+', ' '] <+: cs) :
    p.fileLine cs =
      if p.expectPath then
        .ok { p with files := withPath (String.ofList cs) p.files, expectPath := false }
      else (readFile cs).map fun file => { p with files := p.files ++ [file] } := by
  rw [fileLine]
  rintro entry rfl
  exact h ⟨entry, rfl⟩

theorem withPath_append (path : String) (files : List MappedFile) (file : MappedFile) :
    withPath path (files ++ [file]) = files ++ [{ file with path := some path }] := by
  induction files with
  | nil => rfl
  | cons first files ih =>
      cases files with
      | nil => rfl
      | cons second files => exact congrArg (first :: ·) ih

variable {p}

section Entries

variable (hcurrent : p.current = .files)

include hcurrent

theorem entryLine_files (cs : List Char) : p.entryLine cs = p.fileLine cs := by
  rw [entryLine, hcurrent]

/-- An entry that no path follows. -/
theorem entryLine_entry (hpath : p.expectPath = false) {file : MappedFile} (h : file.Printable) :
    p.entryLine file.entry = .ok { p with files := p.files ++ [{ file with path := none }] } := by
  rw [entryLine_files hcurrent, fileLine_of_not_isPrefix p (file.numbered_entry.not_isPrefix rfl _),
    hpath, h.readFile]
  rfl

/-- An entry that a path follows. -/
theorem entryLine_plus {file : MappedFile} (h : file.Printable) :
    p.entryLine ('+' :: ' ' :: file.entry) =
      .ok { p with files := p.files ++ [{ file with path := none }], expectPath := true } := by
  rw [entryLine_files hcurrent, fileLine, h.readFile]
  rfl

/-- The path of the last file. -/
theorem entryLine_path (hpath : p.expectPath = true) {path : String}
    (hplus : ¬['+', ' '] <+: path.toList) {files : List MappedFile} {id : UInt32} {name : String}
    (hfiles : p.files = files ++ [⟨id, name, none⟩]) :
    p.entryLine path.toList =
      .ok { p with files := files ++ [⟨id, name, some path⟩], expectPath := false } := by
  rw [entryLine_files hcurrent, fileLine_of_not_isPrefix p hplus, if_pos hpath, hfiles,
    withPath_append, String.ofList_toList]

end Entries

/-- The lines of a file declare it. -/
theorem readAll_file {file : MappedFile} (h : file.Printable) (hcurrent : p.current = .files)
    (hpath : p.expectPath = false) :
    p.readAll (file.lines ++ rest) = readAll { p with files := p.files ++ [file] } rest := by
  have hentry := file.numbered_entry
  obtain ⟨id, name, path⟩ := file
  cases path with
  | none =>
      exact readAll_line p rest hentry.ne_nil (hentry.not_isPrefix rfl _)
        (entryLine_entry hcurrent hpath h)
  | some path =>
      obtain ⟨hstar, hplus⟩ := h.path_start path rfl
      have hne : path.toList ≠ [] := fun hnil => h.path_ne path rfl (String.toList_eq_nil_iff.1 hnil)
      calc
        p.readAll (MappedFile.lines ⟨id, name, some path⟩ ++ rest) =
            readAll { p with files := p.files ++ [⟨id, name, none⟩], expectPath := true }
              (path.toList :: rest) :=
          readAll_line p _ (List.cons_ne_nil _ _) (by simp) (entryLine_plus hcurrent h)
        _ = readAll { p with files := p.files ++ [⟨id, name, some path⟩], expectPath := false } rest := by
          refine readAll_line _ rest hne hstar (entryLine_path ?_ rfl hplus rfl)
          exact hcurrent
        _ = _ := by rw [← hpath]

/-- The lines of files declare them in their order. -/
theorem readAll_files {files : List MappedFile} (h : ∀ file ∈ files, file.Printable)
    (hcurrent : p.current = .files) (hpath : p.expectPath = false) :
    p.readAll (files.flatMap MappedFile.lines ++ rest) =
      readAll { p with files := p.files ++ files } rest := by
  induction files generalizing p with
  | nil => rw [List.flatMap_nil, List.nil_append, List.append_nil]
  | cons file files ih =>
      rw [List.flatMap_cons, List.append_assoc,
        readAll_file _ (h file List.mem_cons_self) hcurrent hpath,
        @ih { p with files := p.files ++ [file] }
          (fun other hother => h other (List.mem_cons_of_mem _ hother)) hcurrent hpath,
        List.append_assoc, List.singleton_append]

/-! ## Ranges -/

/-- The lines of ranges add them in their order. -/
theorem readAll_ranges {ranges : List LineRange} {lines : List (List Char)}
    (h : RangesWritten p.lastFile ranges lines) (hcurrent : p.current = .ranges) :
    ∃ lastFile, p.readAll (lines ++ rest) =
      readAll { p with ranges := p.ranges ++ ranges, lastFile } rest := by
  generalize hlast : p.lastFile = last at h
  induction h generalizing p with
  | nil => exact ⟨p.lastFile, by rw [List.nil_append, List.append_nil]⟩
  | @cons last range line ranges lines hwritten _ ih =>
      subst hlast
      have hline : p.entryLine line =
          .ok { p with ranges := p.ranges ++ [range], lastFile := range.file } := by
        rw [entryLine, hcurrent]
        dsimp only
        rw [hwritten.readRange]
        rfl
      obtain ⟨lastFile, hrest⟩ := @ih
        { p with ranges := p.ranges ++ [range], lastFile := range.file } hcurrent rfl
      refine ⟨lastFile, ?_⟩
      rw [List.cons_append, readAll_line p _ hwritten.numbered.ne_nil
        (hwritten.numbered.not_isPrefix rfl _) hline, hrest, List.append_assoc,
        List.singleton_append]

end Progress

/-! ## Whole source maps -/

/-- What is read between the opening of the stratum and the end. -/
theorem exists_readAll {map : SourceMap} (hmap : map.Printable) {ranges : List (List Char)}
    (hranges : RangesWritten 0 map.ranges ranges) {last : Char} (hlast : last = 'E' ∨ last = 'S')
    (heading tail : List Char) (others : List (List Char)) :
    ∃ p : Progress, p.files = map.files ∧ p.ranges = map.ranges ∧
      Progress.readAll {} (('*' :: 'S' :: heading) :: map.sections ranges ++
        ('*' :: last :: tail) :: others) = .ok p := by
  obtain ⟨lastFile, hread⟩ := @Progress.readAll_ranges
    { inStratum := true, current := .ranges, files := map.files }
    (('*' :: last :: tail) :: others) _ _ hranges rfl
  refine ⟨{ inStratum := true, current := .ranges, files := map.files, ranges := map.ranges, lastFile },
    rfl, rfl, ?_⟩
  calc
    Progress.readAll {} (('*' :: 'S' :: heading) :: map.sections ranges ++
        ('*' :: last :: tail) :: others) =
        Progress.readAll { inStratum := true, current := .files }
          (map.files.flatMap MappedFile.lines ++
            "*L".toList :: (ranges ++ ('*' :: last :: tail) :: others)) := by
      simp only [sections, List.cons_append, List.append_assoc]
      rfl
    _ = Progress.readAll { inStratum := true, current := .ranges, files := map.files }
          (ranges ++ ('*' :: last :: tail) :: others) :=
      Progress.readAll_files _ hmap.files rfl rfl
    _ = Progress.readAll
          { inStratum := true, current := .ranges, files := map.files, ranges := map.ranges, lastFile }
          (('*' :: last :: tail) :: others) := hread
    _ = .ok _ := by
      rcases hlast with rfl | rfl <;> rfl

/-- A source map reads back, whichever of its ranges are written in a short form, whatever blanks
stand at the ends of its lines, whether its lines end with a line feed or with a carriage return and
a line feed, and whatever comes after its end. -/
theorem parse_written {map : SourceMap} (hmap : map.Printable) {text : String}
    (h : map.Written text) : parse text = .ok map := by
  obtain ⟨heading, ranges, written, last, rest, hheading, hranges, htyped, hlast, htext⟩ := h
  obtain ⟨tail, others, hend⟩ : ∃ tail others,
      (lines ('*' :: last :: rest)).map trimBack = ('*' :: last :: tail) :: others :=
    trimBack_lines_cons rfl (by rcases hlast with rfl | rfl <;> rfl) rest
  have hlines : (lines text.toList).map trimBack =
      map.layout (trimBack heading) ranges ++ ('*' :: last :: tail) :: others := by
    rw [htext, trimBack_lines htyped (hmap.oneLine_layout hranges hheading), hend,
      hmap.trimBack_layout hranges]
  obtain ⟨p, hfiles, hparsed, hread⟩ :=
    exists_readAll hmap hranges hlast (trimBack heading) tail others
  rw [parse, hlines, layout]
  simp only [List.cons_append] at hread ⊢
  rw [if_neg (not_not_intro rfl), hread, Except.map, hfiles, hparsed, String.ofList_toList,
    String.ofList_toList]

/-! ## A source map with short and long entries -/

namespace Mixed

def sourceMap : SourceMap where
  generated := "Foo.kt"
  stratum := "Kotlin"
  files := [⟨1, "Foo.kt", some "com/example/Foo.kt"⟩, ⟨2, "B.kt", none⟩]
  ranges := [⟨1, 1, 20, 1, 1⟩, ⟨1, 6, 1, 30, 1⟩, ⟨2, 40, 3, 100, 2⟩]

def text : String :=
  "SMAP\nFoo.kt\r\nKotlin \n*S Kotlin\n*F\n+ 1 Foo.kt\ncom/example/Foo.kt\n2 B.kt\n" ++
    "*L\n1#1,20:1\n6:30\t \r\n40#2,3:100,2\n*E\n*L\n7:9\n"

theorem printable : sourceMap.Printable where
  generated := .of_all (by decide)
  stratum := .of_all (by decide)
  files := by
    rintro _ (⟨⟩ | ⟨_, ⟨⟩ | ⟨_, ⟨⟩⟩⟩)
    · refine ⟨.of_all (by decide), by decide, ?_, by decide, by decide⟩
      rintro _ ⟨⟩
      exact .of_all (by decide)
    · exact ⟨.of_all (by decide), by decide, by simp, by decide, by decide⟩

theorem rangesWritten :
    RangesWritten 0 sourceMap.ranges ["1#1,20:1".toList, "6:30".toList, "40#2,3:100,2".toList] :=
  .cons ⟨_, _, _, .written 1, .written 20, .omitted, rfl⟩ <|
    .cons ⟨_, _, _, .omitted, .omitted, .omitted, rfl⟩ <|
      .cons ⟨_, _, _, .written 2, .written 3, .written 2, rfl⟩ .nil

theorem written : sourceMap.Written text := by
  have hfeed : ∀ line, Typed line (line ++ [] ++ ['\n']) := fun line =>
    ⟨[], _, by simp, .inl rfl, rfl⟩
  have hreturn : ∀ line, Typed line (line ++ [] ++ ['\r', '\n']) := fun line =>
    ⟨[], _, by simp, .inr rfl, rfl⟩
  have hblank : ∀ line, Typed line (line ++ [' '] ++ ['\n']) := fun line =>
    ⟨[' '], _, by simp [isBlank], .inl rfl, rfl⟩
  have hblanks : ∀ line, Typed line (line ++ ['\t', ' '] ++ ['\r', '\n']) := fun line =>
    ⟨['\t', ' '], _, by simp [isBlank], .inr rfl, rfl⟩
  exact ⟨" Kotlin".toList, _, _, 'E', "\n*L\n7:9\n".toList, by decide, rangesWritten,
    .cons (hfeed _) (.cons (hreturn _) (.cons (hblank _) (.cons (hfeed _) (.cons (hfeed _)
      (.cons (hfeed _) (.cons (hfeed _) (.cons (hfeed _) (.cons (hfeed _) (.cons (hfeed _)
        (.cons (hblanks _) (.cons (hfeed _) .nil))))))))))),
    .inl rfl, by decide +kernel⟩

end Mixed

theorem parse_written_mixed : Mixed.sourceMap.Printable ∧ Mixed.sourceMap.Written Mixed.text ∧
    parse Mixed.text = .ok Mixed.sourceMap :=
  ⟨Mixed.printable, Mixed.written, parse_written Mixed.printable Mixed.written⟩

end SourceMap
end BytecodeCoverage
