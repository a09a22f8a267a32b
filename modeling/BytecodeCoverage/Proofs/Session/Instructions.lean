import Mathlib.Algebra.GroupWithZero.Nat
import BytecodeCoverage.Proofs.Probe.Instructions
import BytecodeCoverage.Proofs.Scan.Counts
import BytecodeCoverage.Proofs.Session.Behaviour
import BytecodeCoverage.Proofs.Session.Outcome

/-!
# Numbers of instructions of a class

A line of a record has as many instructions as the methods that keep it have for it, taken together.
A line is in the record if some method keeps it, and a method that keeps a line after the filters of
the library have been at it has instructions for it.  So with these filters no number is left out.

**Main definitions.**
* `Method.instructionsOn`, `ClassFile.instructionsOn`: the instructions of a line.

**Results.**
* `ClassFile.isSome_line?_layOut`, `ClassFile.join_noted_layOut`: lines and numbers after laying out.
* `Session.instructions_of_probed`: the numbers of a class that gets probes.
-/

namespace BytecodeCoverage

/-! ## Instructions of methods -/

/-- How many instructions a method has for a line: those that come after a marker of the line and no
other one, if the method is scanned and keeps the line. -/
def Method.instructionsOn (method : Method) (cls : ClassFile) (options : Options)
    (filters : List Filter) (number : UInt32) : Nat :=
  match method.body.filter fun _ => options.eligible method with
  | none => 0
  | some body =>
      if (options.scan filters ⟨cls, method⟩ body).keepsLine number = true then
        Body.countOn body.code number
      else 0

/-- How many instructions the methods of a class have for a line. -/
def ClassFile.instructionsOn (cls : ClassFile) (options : Options) (filters : List Filter)
    (number : UInt32) : Nat :=
  (cls.methods.map fun method => method.instructionsOn cls options filters number).sum

/-- How many instructions a scanned method has for a line. -/
def ScannedMethod.instructionsOn (m : ScannedMethod) (number : UInt32) : Nat :=
  if m.scan.keepsLine number = true then Body.countOn m.body.code number else 0

/-- The numbers that a scan has are those of the code. -/
def ScannedMethod.Counted (m : ScannedMethod) : Prop :=
  ∀ line, m.scan.counts.get? line =
    if Body.countOn m.body.code line = 0 then none else some (Body.countOn m.body.code line)

namespace ClassFile

variable {cls : ClassFile} {options : Options} {filters : List Filter}

/-- Methods that are not scanned have no instructions for any line. -/
theorem sum_scanFrom {index : Nat} {methods : List Method} {scanned : List ScannedMethod}
    (h : cls.scanFrom options filters index methods = .ok scanned) (number : UInt32) :
    (scanned.map fun m => m.instructionsOn number).sum =
      (methods.map fun method => method.instructionsOn cls options filters number).sum := by
  induction methods generalizing index scanned with
  | nil =>
      cases h
      rfl
  | cons method rest ih =>
      obtain ⟨others, hothers, hcases⟩ := exists_of_scanFrom_cons h
      have hrest := ih hothers
      rw [List.map_cons, List.sum_cons, ← hrest, Method.instructionsOn]
      rcases hcases with ⟨hbody, rfl⟩ | ⟨body, hbody, -, ⟨hempty, rfl⟩ | ⟨-, rfl⟩⟩
      · rw [hbody, Nat.zero_add]
      · have hlost : ¬(options.scan filters ⟨cls, method⟩ body).keepsLine number = true := by
          rw [Scan.keepsLine, (Scan.isEmpty_iff _).1 hempty]
          simp
        simp only [hbody, if_neg hlost, Nat.zero_add]
      · rw [hbody, List.map_cons, List.sum_cons, ScannedMethod.instructionsOn]

/-! ## Laying out -/

/-- The lines of the record are those that were there and those that a method keeps. -/
theorem isSome_noted_layOut (count : Bool) {scanned : List ScannedMethod}
    (hcounts : ∀ m ∈ scanned, m.Counted) (record : ClassRecord) (number : UInt32) :
    ((layOut count scanned record).1.noted number).isSome = true ↔
      (record.noted number).isSome = true ∨ ∃ m ∈ scanned, m.scan.keepsLine number = true := by
  induction scanned generalizing record with
  | nil => simp [layOut]
  | cons m rest ih =>
      have hrest := ih (fun other hother => hcounts other (List.mem_cons_of_mem _ hother))
        (record.assign m.signature m.scan count).1
      rw [ClassRecord.noted_assign record number (hcounts m List.mem_cons_self)] at hrest
      refine hrest.trans ?_
      by_cases hkeeps : m.scan.keepsLine number = true <;> simp [hkeeps]

/-- Each method adds what it has. -/
theorem join_noted_layOut (count : Bool) {scanned : List ScannedMethod}
    (hcounts : ∀ m ∈ scanned, m.Counted) (record : ClassRecord) (number : UInt32) :
    ((layOut count scanned record).1.noted number).join =
      addedTo (record.noted number).join
        (if count then (scanned.map fun m => m.instructionsOn number).sum else 0) := by
  induction scanned generalizing record with
  | nil => cases count <;> rfl
  | cons m rest ih =>
      have hrest := ih (fun other hother => hcounts other (List.mem_cons_of_mem _ hother))
        (record.assign m.signature m.scan count).1
      rw [ClassRecord.join_noted_assign record number (hcounts m List.mem_cons_self),
        addedTo_addedTo] at hrest
      refine hrest.trans ?_
      cases count <;> rfl

/-- What the filters are makes no difference to the numbers of a scan. -/
theorem counted_of_mem_scanAll {scanned : List ScannedMethod}
    (h : cls.scanAll options filters = .ok scanned) : ∀ m ∈ scanned, m.Counted := by
  intro m hm line
  obtain ⟨method, -, -, hscan, -⟩ := exists_of_mem_scanAll h hm
  rw [hscan, options.counts_scan]

namespace Made

variable {scanned : List ScannedMethod} {record : ClassRecord}
  {laidOut : List (ScannedMethod × MethodSlots)} {meanings : List Occurrence}

/-- The record has the lines that a method keeps. -/
theorem isSome_line?_iff (h : cls.Made options filters scanned record laidOut meanings)
    (number : UInt32) :
    (record.line? number).isSome = true ↔ ∃ m ∈ scanned, m.scan.keepsLine number = true := by
  have hlines := isSome_noted_layOut options.instructions (counted_of_mem_scanAll h.scan)
    cls.blankRecord number
  rw [h.layOut, ClassRecord.noted, Option.isSome_map] at hlines
  refine hlines.trans (or_iff_right fun hblank => ?_)
  cases hblank

/-- What the record says of the instructions of its lines. -/
theorem instructions_eq (h : cls.Made options filters scanned record laidOut meanings)
    {number : UInt32} {line : LineRecord} (hline : record.line? number = some line) :
    line.instructions =
      addedTo none
        (if options.instructions then cls.instructionsOn options filters number else 0) := by
  have hnoted := join_noted_layOut options.instructions (counted_of_mem_scanAll h.scan)
    cls.blankRecord number
  rw [h.layOut, ClassRecord.noted, hline, sum_scanFrom h.scan] at hnoted
  exact hnoted

/-- After the filters of the library, every line of the record has instructions. -/
theorem instructionsOn_pos (h : cls.Made options Filter.standard scanned record laidOut meanings)
    (hfilters : options.filters = true) {number : UInt32} {line : LineRecord}
    (hline : record.line? number = some line) :
    0 < cls.instructionsOn options Filter.standard number := by
  obtain ⟨m, hm, hkeeps⟩ := (h.isSome_line?_iff number).1 (Option.isSome_iff_exists.2 ⟨line, hline⟩)
  obtain ⟨method, -, -, hscan, -⟩ := exists_of_mem_scanAll h.scan hm
  have hpos : 0 < m.instructionsOn number := by
    rw [ScannedMethod.instructionsOn, if_pos hkeeps]
    exact Options.countOn_pos hfilters _ m.body (hscan ▸ hkeeps)
  rw [instructionsOn, ← sum_scanFrom h.scan]
  exact List.sum_pos_iff_exists_pos_nat.2 ⟨_, List.mem_map_of_mem hm, hpos⟩

/-- Only a line that a method keeps has instructions. -/
theorem isSome_line?_of_pos (h : cls.Made options filters scanned record laidOut meanings)
    {number : UInt32} (hpos : 0 < cls.instructionsOn options filters number) :
    (record.line? number).isSome = true := by
  rw [instructionsOn, ← sum_scanFrom h.scan] at hpos
  obtain ⟨_, hn, hpos⟩ := List.sum_pos_iff_exists_pos_nat.1 hpos
  obtain ⟨m, hm, rfl⟩ := List.mem_map.1 hn
  refine (h.isSome_line?_iff number).2 ⟨m, hm, ?_⟩
  by_contra hlost
  rw [ScannedMethod.instructionsOn, if_neg hlost] at hpos
  exact Nat.lt_irrefl 0 hpos

end Made

end ClassFile

/-- With the filters of the library, every line of a class that gets probes has the number of
instructions that the methods keeping it have for it, and this is not zero.  If instructions are
not counted, no line has a number. -/
theorem Session.instructions_of_probed {s s' : Session} {filters : List Filter}
    {cls cls' : ClassFile} (h : s.instrument filters cls = (.probed cls', s')) :
    ∃ record, s'.record? cls.name = some record ∧
      (s.options.instructions = true → s.options.filters = true → filters = Filter.standard →
        ∀ number line, record.line? number = some line →
          line.instructions = some (cls.instructionsOn s.options filters number) ∧
          1 ≤ cls.instructionsOn s.options filters number) ∧
      (s.options.instructions = false →
        ∀ number line, record.line? number = some line → line.instructions = none) := by
  obtain ⟨scanned, record, laidOut, meanings, hmade, -, -, rfl⟩ := exists_of_probed h
  refine ⟨record, ?_, ?_, ?_⟩
  · rw [record?, register, hmade.name_record, SortedMap.get?_insert_self]
  · rintro hcount hfilters rfl number line hline
    have hpos := hmade.instructionsOn_pos hfilters hline
    refine ⟨?_, hpos⟩
    rw [hmade.instructions_eq hline, if_pos hcount, addedTo, if_neg (Nat.ne_of_gt hpos),
      Option.getD_none, Nat.zero_add]
  · intro hcount number line hline
    rw [hmade.instructions_eq hline, hcount]
    rfl

/-! ## Two methods on one line -/

namespace Sign

/-- A method with another instruction on the same line. -/
def constant : Method where
  name := "constant"
  descriptor := "()I"
  access := ⟨0x9⟩
  body := some (.ofParts [.line 3, .simple .iconst1, .simple .ireturn] [] 1 0)

/-- The class with both methods. -/
def clsTwin : ClassFile :=
  { cls with methods := [method, constant] }

theorem keepsLine_clsTwin : clsTwin.KeepsLine { instructions := true } Filter.standard := by
  refine ⟨constant, _, ⟨by simp [clsTwin], by decide, rfl⟩, ?_⟩
  decide

theorem not_defective_clsTwin : ¬clsTwin.Defective { instructions := true } := by
  rw [← ClassFile.exists_error_scanAll_iff _ _ Filter.standard]
  rintro ⟨defect, h⟩
  have hscan : (clsTwin.scanAll { instructions := true } Filter.standard).toOption.isSome = true := by
    decide
  rw [h] at hscan
  cases hscan

theorem instructionsOn_clsTwin :
    clsTwin.instructionsOn { instructions := true } Filter.standard 3 = 8 := by
  decide

end Sign

/-- The first method has six instructions on the line, the second one two. -/
theorem Session.instructions_of_probed_twin :
    ∃ cls' s' record line,
      ({ options := { instructions := true } } : Session).instrument Filter.standard Sign.clsTwin =
        (.probed cls', s') ∧
      s'.record? "demo/Sign" = some record ∧ record.line? 3 = some line ∧
      line.instructions = some 8 := by
  have hmarked : ¬Sign.clsTwin.Marked := by
    rw [ClassFile.Marked]
    decide
  obtain ⟨cls', s', h⟩ := Session.exists_probed ({ options := { instructions := true } } : Session)
    hmarked Sign.not_defective_clsTwin Sign.keepsLine_clsTwin
  obtain ⟨record, hrecord, hcount, -⟩ := instructions_of_probed h
  obtain ⟨scanned, record', laidOut, meanings, hmade, -, -, rfl⟩ := exists_of_probed h
  have hsame : record' = record := by
    rw [record?, register, hmade.name_record] at hrecord
    exact Option.some.inj ((SortedMap.get?_insert_self ..).symm.trans hrecord)
  have hpos := Nat.lt_of_lt_of_eq (Nat.succ_pos 7) Sign.instructionsOn_clsTwin.symm
  obtain ⟨line, hline⟩ := Option.isSome_iff_exists.1 (hmade.isSome_line?_of_pos hpos)
  refine ⟨cls', _, record, line, h, hrecord, hsame ▸ hline, ?_⟩
  exact (hcount rfl rfl rfl 3 line (hsame ▸ hline)).1.trans
    (congrArg some Sign.instructionsOn_clsTwin)

end BytecodeCoverage
