import Mathlib.Data.List.Basic
import Mathlib.Data.List.Induction
import BytecodeCoverage.Proofs.Scan.Filtered
import BytecodeCoverage.Proofs.SortedMap

/-!
# The scan without filters

Without filters a scan can be read off the code.  It holds every line marker, and every conditional
jump and every switch that comes after a marker, each with the line of the marker last before it.
An executable instruction counts for that line too.

Along the code, what the ledger holds is what can be read off the instructions seen so far
(`Ledger.Reads`).

**Main definitions.**
* `Body.lineBefore`: the line of the marker last before a position.
* `Body.markerAt?`, `Body.jumpAt?`, `Body.switchAt?`, `Body.countOn`: what can be read off the code.

**Results.**
* `Ledger.Reads.observe`: one instruction.
* `Ledger.Reads.passFrom`: the rest of the code.
* `Scan.reads_pass`: the pass over the whole code.
* `Options.scan_unfiltered`: the whole scan.
-/

namespace BytecodeCoverage

namespace Body

/-- The line of the marker last before a position. -/
def lineBefore (code : List Instruction) (i : Nat) : Option UInt32 :=
  (markedLines (code.take i)).getLast?

/-- The marker at a position. -/
def markerAt? (code : List Instruction) (i : Nat) : Option Marker :=
  match code[i]? with
  | some (.line number) => some { index := i, line := number }
  | _ => none

/-- The conditional jump at a position, if a marker comes before it. -/
def jumpAt? (code : List Instruction) (i : Nat) : Option JumpSite :=
  if code[i]?.any Instruction.isConditionalJump then
    (lineBefore code i).map fun line => { index := i, line }
  else none

/-- The switch at a position, if a marker comes before it. -/
def switchAt? (code : List Instruction) (i : Nat) : Option SwitchSite :=
  (code[i]?.bind Instruction.switchKeys?).bind fun keys =>
    (lineBefore code i).map fun line => { index := i, line, keys }

/-- How many executable instructions have a marker of the line last before them. -/
def countOn (code : List Instruction) (line : UInt32) : Nat :=
  (List.range code.length).countP fun i =>
    code[i]?.any Instruction.isExecutable && lineBefore code i == some line

/-! ## One more instruction -/

variable (code : List Instruction) (insn : Instruction)

theorem markedLines_append (a b : List Instruction) :
    markedLines (a ++ b) = markedLines a ++ markedLines b := by
  induction a with
  | nil => rfl
  | cons insn rest ih => cases insn <;> simp [markedLines, ih]

theorem markedLines_eq_nil {code : List Instruction} (h : ∀ insn ∈ code, insn.isLine = false) :
    markedLines code = [] := by
  induction code with
  | nil => rfl
  | cons insn rest ih =>
      obtain ⟨hinsn, hrest⟩ := List.forall_mem_cons.1 h
      cases insn with
      | line number => cases hinsn
      | _ => exact ih hrest

theorem lineBefore_length : lineBefore code code.length = (markedLines code).getLast? := by
  rw [lineBefore, List.take_length]

variable {code} in
/-- What comes later does not matter. -/
theorem lineBefore_append {i : Nat} (hi : i ≤ code.length) (more : List Instruction) :
    lineBefore (code ++ more) i = lineBefore code i := by
  rw [lineBefore, List.take_append_of_le_length hi, lineBefore]

/-- What is read off each position of the code is read off it when one more instruction has been
seen, too. -/
theorem filterMap_range_concat {α : Type} (read : List Instruction → Nat → Option α)
    (hread : ∀ i < code.length, read (code ++ [insn]) i = read code i) :
    (List.range (code ++ [insn]).length).filterMap (read (code ++ [insn])) =
      (List.range code.length).filterMap (read code) ++
        (read (code ++ [insn]) code.length).toList := by
  rw [List.length_append, List.length_singleton, List.range_succ, List.filterMap_append]
  rw [List.filterMap_congr fun i hi => hread i (List.mem_range.1 hi)]
  cases h : read (code ++ [insn]) code.length <;> simp [h]

theorem markers_concat :
    (List.range (code ++ [insn]).length).filterMap (markerAt? (code ++ [insn])) =
      (List.range code.length).filterMap (markerAt? code) ++
        (markerAt? (code ++ [insn]) code.length).toList :=
  filterMap_range_concat code insn markerAt? fun i hi => by
    rw [markerAt?, List.getElem?_append_left hi, markerAt?]

theorem jumps_concat :
    (List.range (code ++ [insn]).length).filterMap (jumpAt? (code ++ [insn])) =
      (List.range code.length).filterMap (jumpAt? code) ++
        (jumpAt? (code ++ [insn]) code.length).toList :=
  filterMap_range_concat code insn jumpAt? fun i hi => by
    rw [jumpAt?, List.getElem?_append_left hi, lineBefore_append (Nat.le_of_lt hi), jumpAt?]

theorem switches_concat :
    (List.range (code ++ [insn]).length).filterMap (switchAt? (code ++ [insn])) =
      (List.range code.length).filterMap (switchAt? code) ++
        (switchAt? (code ++ [insn]) code.length).toList :=
  filterMap_range_concat code insn switchAt? fun i hi => by
    rw [switchAt?, List.getElem?_append_left hi, lineBefore_append (Nat.le_of_lt hi), switchAt?]

theorem countOn_concat (line : UInt32) :
    countOn (code ++ [insn]) line = countOn code line +
      if insn.isExecutable && (markedLines code).getLast? == some line then 1 else 0 := by
  unfold countOn
  rw [List.length_append, List.length_singleton, List.range_succ, List.countP_append]
  congr 1
  · refine List.countP_congr fun i hi => ?_
    have hlt := List.mem_range.1 hi
    rw [List.getElem?_append_left hlt, lineBefore_append (Nat.le_of_lt hlt)]
  · rw [List.countP_singleton, List.getElem?_concat_length, lineBefore_append (Nat.le_refl _),
      lineBefore_length]
    rfl

theorem markerAt?_concat : markerAt? (code ++ [insn]) code.length =
    match insn with
    | .line number => some { index := code.length, line := number }
    | _ => none := by
  rw [markerAt?, List.getElem?_concat_length]
  cases insn <;> rfl

theorem jumpAt?_concat : jumpAt? (code ++ [insn]) code.length =
    if insn.isConditionalJump then
      (markedLines code).getLast?.map fun line => { index := code.length, line }
    else none := by
  rw [jumpAt?, List.getElem?_concat_length, lineBefore_append (Nat.le_refl _), lineBefore_length]
  rfl

theorem switchAt?_concat : switchAt? (code ++ [insn]) code.length =
    insn.switchKeys?.bind fun keys =>
      (markedLines code).getLast?.map fun line => { index := code.length, line, keys } := by
  rw [switchAt?, List.getElem?_concat_length, lineBefore_append (Nat.le_refl _), lineBefore_length]
  rfl

end Body

/-! ## The pass -/

open Body

/-- The ledger holds what can be read off the instructions seen so far. -/
structure Ledger.Reads (ledger : Ledger) (e : Enumeration) (seen : List Instruction) : Prop where
  currentLine : ledger.currentLine = (markedLines seen).getLast?
  markers : ledger.markers = (List.range seen.length).filterMap (markerAt? seen)
  jumps : ledger.jumps =
    if e.jumps then (List.range seen.length).filterMap (jumpAt? seen) else []
  switches : ledger.switches =
    if e.switches then (List.range seen.length).filterMap (switchAt? seen) else []
  counts : ∀ line, ledger.counts.get? line =
    if countOn seen line = 0 then none else some (countOn seen line)

/-- Counting an instruction changes nothing but the numbers of instructions. -/
theorem Ledger.countInstruction_keeps (ledger : Ledger) :
    ledger.countInstruction.currentLine = ledger.currentLine ∧
      ledger.countInstruction.markers = ledger.markers ∧
      ledger.countInstruction.jumps = ledger.jumps ∧
      ledger.countInstruction.switches = ledger.switches := by
  unfold countInstruction
  cases h : ledger.currentLine <;> simp [h]

theorem Ledger.registerJump_eq (ledger : Ledger) (index : Nat) :
    ledger.registerJump index =
      { ledger with
        jumps := ledger.jumps ++ (ledger.currentLine.map fun line => { index, line }).toList } := by
  obtain ⟨scan, currentLine, position⟩ := ledger
  cases currentLine <;> simp [registerJump]

theorem Ledger.registerSwitch_eq (ledger : Ledger) (index : Nat) (keys : List Int32) :
    ledger.registerSwitch index keys =
      { ledger with
        switches := ledger.switches ++
          (ledger.currentLine.map fun line => { index, line, keys }).toList } := by
  obtain ⟨scan, currentLine, position⟩ := ledger
  cases currentLine <;> simp [registerSwitch]

namespace Ledger.Reads

variable {ledger : Ledger} {e : Enumeration} {seen : List Instruction} {insn : Instruction}

/-- Before the first instruction. -/
theorem start (e : Enumeration) : Ledger.Reads {} e [] where
  currentLine := rfl
  markers := rfl
  jumps := by cases e.jumps <;> rfl
  switches := by cases e.switches <;> rfl
  counts _ := rfl

/-- What the ledger holds after an instruction that is no line marker. -/
theorem of_executed (h : ledger.Reads e seen) (hline : ∀ number, insn ≠ .line number)
    {after : Ledger} (hcurrent : after.currentLine = ledger.currentLine)
    (hmarkers : after.markers = ledger.markers)
    (hjumps : after.jumps = ledger.jumps ++
      if e.jumps then (jumpAt? (seen ++ [insn]) seen.length).toList else [])
    (hswitches : after.switches = ledger.switches ++
      if e.switches then (switchAt? (seen ++ [insn]) seen.length).toList else [])
    (hcounts : ∀ line, after.counts.get? line =
      if countOn (seen ++ [insn]) line = 0 then none else some (countOn (seen ++ [insn]) line)) :
    after.Reads e (seen ++ [insn]) := by
  have hmarked : markedLines (seen ++ [insn]) = markedLines seen := by
    rw [markedLines_append]
    cases insn <;> first | exact absurd rfl (hline _) | exact List.append_nil _
  have hmarker : markerAt? (seen ++ [insn]) seen.length = none := by
    rw [markerAt?_concat]
    cases insn <;> first | exact absurd rfl (hline _) | rfl
  refine ⟨?_, ?_, ?_, ?_, hcounts⟩
  · rw [hcurrent, h.currentLine, hmarked]
  · rw [hmarkers, h.markers, markers_concat, hmarker]
    exact (List.append_nil _).symm
  · rw [hjumps, h.jumps, jumps_concat]
    split <;> rfl
  · rw [hswitches, h.switches, switches_concat]
    split <;> rfl

/-- A line marker. -/
theorem registerLine (h : ledger.Reads e seen) (number : UInt32) :
    (ledger.registerLine seen.length number).Reads e (seen ++ [.line number]) := by
  refine ⟨?_, ?_, ?_, ?_, fun line => ?_⟩
  · rw [markedLines_append]
    simp [Ledger.registerLine, markedLines]
  · rw [markers_concat, markerAt?_concat]
    exact congrArg (· ++ _) h.markers
  · rw [jumps_concat, jumpAt?_concat]
    simpa [Instruction.isConditionalJump, Ledger.registerLine] using h.jumps
  · rw [switches_concat, switchAt?_concat]
    simpa [Instruction.switchKeys?, Ledger.registerLine] using h.switches
  · rw [countOn_concat]
    exact h.counts line

/-- What the numbers of instructions are after an executable instruction. -/
theorem counts_countInstruction (h : ledger.Reads e seen) (hexecutes : insn.isExecutable = true)
    (line : UInt32) :
    ledger.countInstruction.counts.get? line =
      if countOn (seen ++ [insn]) line = 0 then none
      else some (countOn (seen ++ [insn]) line) := by
  rw [countOn_concat, hexecutes, Bool.true_and, ← h.currentLine, Ledger.countInstruction]
  cases hcurrent : ledger.currentLine with
  | none => simpa using h.counts line
  | some current =>
      rw [SortedMap.get?_update]
      by_cases hsame : line = current
      · subst hsame
        rw [if_pos (Std.LawfulEqOrd.compare_eq_iff_eq.2 rfl), beq_self_eq_true, if_pos rfl,
          if_neg (Nat.succ_ne_zero _), h.counts]
        split <;> simp_all
      · have hother : (some current == some line) = false := by
          simpa using fun heq : current = line => hsame heq.symm
        rw [if_neg (mt Std.LawfulEqOrd.compare_eq_iff_eq.1 hsame), hother]
        simpa using h.counts line

/-- An executable instruction that is no branch, or one whose branches are not registered. -/
theorem countInstruction (h : ledger.Reads e seen) (hexecutes : insn.isExecutable = true)
    (hjump : e.jumps = true → insn.isConditionalJump = false)
    (hswitch : e.switches = true → insn.switchKeys? = none) :
    ledger.countInstruction.Reads e (seen ++ [insn]) := by
  obtain ⟨hcurrent, hmarkers, hjumps, hswitches⟩ := ledger.countInstruction_keeps
  refine h.of_executed (fun number heq => ?_) hcurrent hmarkers (hjumps.trans ?_)
    (hswitches.trans ?_) (h.counts_countInstruction hexecutes)
  · subst heq
    cases hexecutes
  · rw [jumpAt?_concat]
    split
    · rename_i hregister
      simp [hjump hregister]
    · exact (List.append_nil _).symm
  · rw [switchAt?_concat]
    split
    · rename_i hregister
      simp [hswitch hregister]
    · exact (List.append_nil _).symm

/-- A conditional jump that is registered. -/
theorem registerJump (h : ledger.Reads e seen) (hregister : e.jumps = true) {op : Opcode}
    {target : Label} (hop : op.isConditionalJump = true) :
    (ledger.countInstruction.registerJump seen.length).Reads e (seen ++ [.jump op target]) := by
  obtain ⟨hcurrent, hmarkers, hjumps, hswitches⟩ := ledger.countInstruction_keeps
  rw [Ledger.registerJump_eq]
  refine h.of_executed (fun _ => Instruction.noConfusion) hcurrent hmarkers ?_
    (hswitches.trans ?_) (h.counts_countInstruction rfl)
  · rw [hjumps, hcurrent, h.currentLine, if_pos hregister, jumpAt?_concat]
    exact congrArg (ledger.jumps ++ Option.toList ·) (if_pos hop).symm
  · simp [switchAt?_concat, Instruction.switchKeys?]

/-- A switch that is registered. -/
theorem registerSwitch (h : ledger.Reads e seen) (hregister : e.switches = true)
    (hexecutes : insn.isExecutable = true) (hjump : insn.isConditionalJump = false)
    {keys : List Int32} (hkeys : insn.switchKeys? = some keys) :
    (ledger.countInstruction.registerSwitch seen.length keys).Reads e (seen ++ [insn]) := by
  obtain ⟨hcurrent, hmarkers, hjumps, hswitches⟩ := ledger.countInstruction_keeps
  rw [Ledger.registerSwitch_eq]
  refine h.of_executed (fun number heq => ?_) hcurrent hmarkers (hjumps.trans ?_) ?_
    (h.counts_countInstruction hexecutes)
  · subst heq
    cases hexecutes
  · simp [jumpAt?_concat, hjump]
  · rw [hswitches, hcurrent, h.currentLine, if_pos hregister, switchAt?_concat, hkeys]
    rfl

/-- Registering one more instruction. -/
theorem register (h : ledger.Reads e seen) (insn : Instruction) :
    (e.register seen.length insn ledger).Reads e (seen ++ [insn]) := by
  cases insn with
  | line number => exact h.registerLine number
  | label placed =>
      refine h.of_executed (fun _ => Instruction.noConfusion) rfl rfl ?_ ?_ fun line => ?_
      · simp [Enumeration.register, jumpAt?_concat, Instruction.isConditionalJump]
      · simp [Enumeration.register, switchAt?_concat, Instruction.switchKeys?]
      · rw [countOn_concat]
        exact h.counts line
  | jump op target =>
      simp only [Enumeration.register]
      split
      · rename_i hboth
        rw [Bool.and_eq_true] at hboth
        exact h.registerJump hboth.2 hboth.1
      · rename_i hnot
        refine h.countInstruction rfl (fun hregister => ?_) fun _ => rfl
        simpa [hregister, Instruction.isConditionalJump] using hnot
  | tableSwitch low high otherwise targets | lookupSwitch otherwise keys targets =>
      simp only [Enumeration.register, Instruction.switchKeys?]
      split
      · rename_i hregister
        exact h.registerSwitch hregister rfl rfl rfl
      · rename_i hnot
        exact h.countInstruction rfl (fun _ => rfl) fun hregister => absurd hregister hnot
  | _ => exact h.countInstruction rfl (fun _ => rfl) fun _ => rfl

/-- Turning to an instruction changes nothing that is held. -/
theorem advance (h : ledger.Reads e seen) (index : Nat) : (ledger.advance index).Reads e seen :=
  ⟨h.currentLine, h.markers, h.jumps, h.switches, h.counts⟩

/-- Seeing one more instruction. -/
theorem observe (h : ledger.Reads e seen) (insn : Instruction) :
    (e.observe seen.length insn ledger).Reads e (seen ++ [insn]) :=
  (h.advance seen.length).register insn

/-- The rest of the code. -/
theorem passFrom (h : ledger.Reads e seen) (rest : List Instruction) :
    (Scan.passFrom e seen.length rest [] ledger).2.Reads e (seen ++ rest) := by
  induction rest generalizing seen ledger with
  | nil =>
      rw [List.append_nil]
      exact h
  | cons insn rest ih =>
      have hrest := ih (h.observe insn)
      rw [List.length_append, List.append_assoc] at hrest
      exact hrest

end Ledger.Reads

/-! ## The whole scan -/

namespace Scan

variable {scan : Scan} {code : List Instruction}

/-- The pass without patterns holds what can be read off the code. -/
theorem reads_pass (e : Enumeration) (code : List Instruction) :
    ∃ ledger : Ledger, pass e code [] = ledger.toScan ∧ ledger.Reads e code := by
  have hmatchers : (passFrom e 0 code [] {}).1 = [] :=
    congrArg Prod.fst (passFrom_nil e 0 code [] {})
  refine ⟨(passFrom e 0 code [] {}).2, ?_, (Ledger.Reads.start e).passFrom code⟩
  show (Matcher.finishAll (passFrom e 0 code [] {}).1 _).toScan = _
  rw [hmatchers]
  rfl

/-- The markers of a scan stand where the markers of the code do, in order. -/
theorem pairwise_markers_pass (e : Enumeration) (code : List Instruction)
    (matchers : List Matcher) :
    ((pass e code matchers).markers.map Marker.index).Pairwise (· < ·) := by
  obtain ⟨ledger, hledger, hreads⟩ := reads_pass e code
  have hbare := congrArg (fun scan : Scan => scan.markers.map Marker.index)
    (bare_pass e code matchers)
  rw [hledger, hreads.markers] at hbare
  have hindex : (pass e code matchers).bare.markers.map Marker.index =
      (pass e code matchers).markers.map Marker.index := by
    simp [bare, Marker.bare, Function.comp_def]
  rw [← hindex, hbare, List.map_filterMap]
  refine List.Pairwise.filterMap _ (fun i j hlt a ha b hb => ?_) List.pairwise_lt_range
  have hmarker : ∀ {i a}, a ∈ (markerAt? code i).map Marker.index → a = i := by
    intro i a ha
    obtain ⟨marker, hmarker, rfl⟩ := Option.map_eq_some_iff.1 ha
    unfold markerAt? at hmarker
    split at hmarker <;> cases hmarker
    rfl
  rw [hmarker ha, hmarker hb]
  exact hlt

/-- The lines of the markers in the code. -/
theorem map_line_markers (code : List Instruction) :
    ((List.range code.length).filterMap (markerAt? code)).map Marker.line =
      Body.markedLines code := by
  induction code using List.reverseRec with
  | nil => rfl
  | append_singleton code insn ih =>
      rw [markers_concat, List.map_append, ih, markedLines_append, markerAt?_concat]
      cases insn <;> rfl

/-- A scan that has retracted no marker keeps every marked line. -/
theorem keptLines_of_unretracted
    (hmarkers : scan.markers = (List.range code.length).filterMap (markerAt? code)) :
    scan.keptLines = Body.markedLines code := by
  have hkept : ∀ marker ∈ scan.markers, !marker.retracted := by
    intro marker hmarker
    rw [hmarkers] at hmarker
    obtain ⟨i, -, hi⟩ := List.mem_filterMap.1 hmarker
    unfold markerAt? at hi
    split at hi <;> cases hi
    rfl
  rw [keptLines, List.filter_eq_self.2 hkept, hmarkers, map_line_markers]

theorem mem_of_lineBefore {i : Nat} {line : UInt32} (h : lineBefore code i = some line) :
    line ∈ Body.markedLines code := by
  have hmem := List.mem_of_getLast? h
  rw [← List.take_append_drop i code, markedLines_append]
  exact List.mem_append_left _ hmem

/-- Every jump read off the code is on a marked line. -/
theorem keepsJump_of_jumpAt? (hlines : scan.keptLines = Body.markedLines code) {i : Nat}
    {site : JumpSite} (h : jumpAt? code i = some site) : scan.keepsJump site = true := by
  unfold jumpAt? at h
  split at h
  · obtain ⟨line, hline, rfl⟩ := Option.map_eq_some_iff.1 h
    simpa [keepsJump, keepsLine, hlines] using mem_of_lineBefore hline
  · cases h

/-- Every switch read off the code is on a marked line. -/
theorem keepsSwitch_of_switchAt? (hlines : scan.keptLines = Body.markedLines code) {i : Nat}
    {site : SwitchSite} (h : switchAt? code i = some site) : scan.keepsSwitch site = true := by
  obtain ⟨keys, -, h⟩ := Option.bind_eq_some_iff.1 h
  obtain ⟨line, hline, rfl⟩ := Option.map_eq_some_iff.1 h
  simpa [keepsSwitch, keepsLine, hlines] using mem_of_lineBefore hline

end Scan

/-- Without filters a scan holds all markers, the conditional jumps and the switches that come after
a marker, with the lines of these markers, and the numbers of executable instructions of each line.
All of it survives.  There are no jumps in class initializers, and without branches there are
neither jumps nor switches. -/
theorem Options.scan_unfiltered {options : Options} {filters : List Filter}
    (h : options.filters = false ∨ filters = []) (scope : Scope) (body : Body) {scan : Scan}
    (hscan : options.scan filters scope body = scan) :
    scan.markers = (List.range body.code.length).filterMap (markerAt? body.code) ∧
      (∀ line, scan.keepsLine line = true ↔ line ∈ body.lines) ∧
      scan.jumps =
        (if options.branches = true ∧ scope.method.isInitializer = false then
          (List.range body.code.length).filterMap (jumpAt? body.code)
        else []) ∧
      scan.switches =
        (if options.branches = true then
          (List.range body.code.length).filterMap (switchAt? body.code)
        else []) ∧
      scan.survivingJumps = scan.jumps ∧ scan.survivingSwitches = scan.switches ∧
      ∀ line, scan.counts.get? line =
        if countOn body.code line = 0 then none else some (countOn body.code line) := by
  have hnone : (if options.filters then filters else []) = [] := by
    rcases h with h | rfl
    · rw [h]
      rfl
    · exact ite_self _
  obtain ⟨ledger, hledger, hreads⟩ := Scan.reads_pass (.forMethod options.branches scope) body.code
  have hpass : scan = ledger.toScan := by
    rw [← hscan, Options.scan, hnone, ← hledger]
    rfl
  have hmarkers : scan.markers = _ := hpass ▸ hreads.markers
  have hlines := Scan.keptLines_of_unretracted hmarkers
  have hjumps : scan.jumps = _ := hpass ▸ hreads.jumps
  have hswitches : scan.switches = _ := hpass ▸ hreads.switches
  refine ⟨hmarkers, fun line => ?_, hjumps.trans ?_, hswitches, ?_, ?_, fun line => ?_⟩
  · rw [Scan.keepsLine, hlines, List.contains_iff_mem, lines, List.mem_eraseDups]
  · simp [Enumeration.forMethod]
  · refine List.filter_eq_self.2 fun site hsite => ?_
    rw [hjumps] at hsite
    split at hsite
    · obtain ⟨i, -, hi⟩ := List.mem_filterMap.1 hsite
      exact Scan.keepsJump_of_jumpAt? hlines hi
    · cases hsite
  · refine List.filter_eq_self.2 fun site hsite => ?_
    rw [hswitches] at hsite
    split at hsite
    · obtain ⟨i, -, hi⟩ := List.mem_filterMap.1 hsite
      exact Scan.keepsSwitch_of_switchAt? hlines hi
    · cases hsite
  · rw [hpass]
    exact hreads.counts line

/-! ## A method with markers that come back -/

namespace Returning

/-- A jump before the first marker, and two stretches of line 1. -/
def body : Body :=
  .ofParts [.localVar .iload 0, .jump .ifeq ⟨0⟩, .line 1, .localVar .iload 0, .jump .ifne ⟨0⟩,
    .line 2, .localVar .iload 0, .lookupSwitch ⟨0⟩ [7] [⟨0⟩], .line 1, .label ⟨0⟩,
    .simple .returnVoid] [] 1 1

def method : Method where
  name := "run"
  descriptor := "(I)V"
  access := ⟨0x9⟩
  body := some body

def cls : ClassFile where
  name := "demo/Returning"
  superName := some "java/lang/Object"
  access := ⟨0x21⟩
  major := 52
  sourceFile := none
  sourceDebug := none
  fields := []
  methods := [method]

/-- Its scan with the filters turned off. -/
def scan : Scan :=
  ({ filters := false } : Options).scan Filter.standard ⟨cls, method⟩ body

end Returning

theorem Options.scan_unfiltered_returning :
    ({ filters := false } : Options).filters = false ∧
    Returning.scan.jumps = [{ index := 4, line := 1 }] ∧
    Returning.scan.switches = [{ index := 7, line := 2, keys := [7] }] ∧
    (∀ line, Returning.scan.keepsLine line = true ↔ line ∈ Returning.body.lines) ∧
    Returning.scan.counts.get? 1 = some 3 :=
  have hunfiltered : ({ filters := false } : Options).filters = false ∨ Filter.standard = [] :=
    .inl rfl
  have hscan : ({ filters := false } : Options).scan Filter.standard
      ⟨Returning.cls, Returning.method⟩ Returning.body = Returning.scan := rfl
  have h := scan_unfiltered hunfiltered ⟨Returning.cls, Returning.method⟩ Returning.body hscan
  ⟨rfl, h.2.2.1.trans (by decide), h.2.2.2.1.trans (by decide), h.2.1,
    (h.2.2.2.2.2.2 1).trans (by decide)⟩

end BytecodeCoverage
