import BytecodeCoverage.Proofs.Noise.Regions
import BytecodeCoverage.Proofs.Noise.Unmatched
import BytecodeCoverage.Proofs.Scan.Lines

/-!
# Switches over strings

Compilers write a switch over strings as a switch over hash codes, comparisons for each hash code,
and a switch over the number of the string.  Only the last one has branches that somebody wrote.

**Main definitions.**
* `HashDispatch`: the code of a switch over strings.
* `HashDispatch.Reduced`: what is left of it in a scan.

**Results.**
* `HashDispatch.run?_comparisons`: the comparisons stay in the dispatch region.
* `Options.reduced_hashDispatch`: a scan with all filters.
-/

namespace BytecodeCoverage

open Noise

/-! ## The code of a switch over strings -/

/-- A string of the switch: where it is compared, its number, and whether a `goto` leaves the
comparisons after it; none is needed right before the second switch. -/
structure Candidate where
  entry : Label
  text : String
  number : Int32
  leaves : Bool

/-- The strings with one hash code, in the order in which they are compared. -/
structure HashGroup where
  hash : Int32
  candidates : List Candidate

/-- A switch over strings as compilers write it: a switch over the hash code of a local variable,
the comparisons, which store the number of the string in another one, and a switch over the
number. -/
structure HashDispatch where
  subject : UInt16
  chosen : UInt16
  groups : List HashGroup
  dispatch : Label
  select : Instruction

namespace HashDispatch

variable (s : HashDispatch)

/-- Where the first of some strings is compared; the second switch, if there is none. -/
def entry : List Candidate → Label
  | [] => s.dispatch
  | candidate :: _ => candidate.entry

/-- The call of `hashCode`. -/
def hashCall : Instruction :=
  .method .invokevirtual "java/lang/String" "hashCode" "()I" false

/-- The call of `equals`. -/
def equalsCall : Instruction :=
  .method .invokevirtual "java/lang/String" "equals" "(Ljava/lang/Object;)Z" false

/-- The comparisons with the strings of a group. -/
def chain : List Candidate → List Instruction
  | [] => []
  | candidate :: rest =>
      [.label candidate.entry, .localVar .aload s.subject, .ldc (.string candidate.text),
        equalsCall, .jump .ifeq (s.entry rest), .pushInt candidate.number,
        .localVar .istore s.chosen] ++
      ((if candidate.leaves then [.jump .goto s.dispatch] else []) ++ chain rest)

/-- All comparisons. -/
def comparisons : List Instruction :=
  s.groups.flatMap fun group => s.chain group.candidates

/-- The switch over hash codes. -/
def hashSwitch : Instruction :=
  .lookupSwitch s.dispatch (s.groups.map HashGroup.hash)
    (s.groups.map fun group => s.entry group.candidates)

/-- The whole code. -/
def code : List Instruction :=
  hashCall :: s.hashSwitch ::
    (s.comparisons ++ [.label s.dispatch, .localVar .iload s.chosen, s.select])

theorem advance?_pushInt (number : Int32) :
    StringSwitch.advance? .base (.pushInt number) = some .base := by
  unfold Instruction.pushInt
  split <;> first | rfl | (split <;> first | rfl | (split <;> rfl))

/-- The comparisons stay in the dispatch region. -/
theorem run?_chain (candidates : List Candidate) :
    StringSwitch.run? .base (s.chain candidates) = some .base := by
  induction candidates with
  | nil => rfl
  | cons candidate rest ih =>
      have hfixed : StringSwitch.run? .base
          [.label candidate.entry, .localVar .aload s.subject, .ldc (.string candidate.text),
            equalsCall, .jump .ifeq (s.entry rest), .pushInt candidate.number,
            .localVar .istore s.chosen] = some .base := by
        have hcompared : StringSwitch.run? .base
            [.label candidate.entry, .localVar .aload s.subject, .ldc (.string candidate.text),
              equalsCall, .jump .ifeq (s.entry rest)] = some .base := by
          rfl
        rw [show [.label candidate.entry, .localVar .aload s.subject,
            .ldc (.string candidate.text), equalsCall, .jump .ifeq (s.entry rest),
            .pushInt candidate.number, .localVar .istore s.chosen] =
          [.label candidate.entry, .localVar .aload s.subject, .ldc (.string candidate.text),
              equalsCall, .jump .ifeq (s.entry rest)] ++
            [.pushInt candidate.number, .localVar .istore s.chosen] from rfl,
          StringSwitch.run?_append, hcompared, Option.bind_some, StringSwitch.run?_cons,
          advance?_pushInt]
        rfl
      have hleaves : StringSwitch.run? .base
          (if candidate.leaves then [.jump .goto s.dispatch] else []) = some .base := by
        split <;> rfl
      rw [chain, StringSwitch.run?_append, hfixed, Option.bind_some, StringSwitch.run?_append,
        hleaves]
      exact ih

theorem run?_comparisons : StringSwitch.run? .base s.comparisons = some .base := by
  unfold comparisons
  induction s.groups with
  | nil => rfl
  | cons group rest ih =>
      rw [List.flatMap_cons, StringSwitch.run?_append, s.run?_chain]
      exact ih

theorem pushInt_not_jump (number : Int32) :
    (Instruction.pushInt number).isConditionalJump = false := by
  obtain ⟨op, h⟩ | ⟨op, h⟩ | h := Instruction.forms_of_pushInt number <;> rw [h] <;> rfl

/-- The only conditional jumps of the comparisons are those after the calls of `equals`. -/
theorem eq_ifeq_of_mem_chain {candidates : List Candidate} {insn : Instruction}
    (hmem : insn ∈ s.chain candidates) (hjump : insn.isConditionalJump = true) :
    ∃ target, insn = .jump .ifeq target := by
  induction candidates with
  | nil => cases hmem
  | cons candidate rest ih =>
      rw [chain, List.mem_append, List.mem_append] at hmem
      rcases hmem with hfixed | hleaves | hrest
      · simp only [List.mem_cons, List.not_mem_nil, or_false] at hfixed
        rcases hfixed with rfl | rfl | rfl | rfl | rfl | rfl | rfl
        · cases hjump
        · cases hjump
        · cases hjump
        · cases hjump
        · exact ⟨_, rfl⟩
        · exact absurd hjump (by simp [pushInt_not_jump])
        · cases hjump
      · split at hleaves
        · obtain rfl := List.mem_singleton.1 hleaves
          cases hjump
        · cases hleaves
      · exact ih hrest

theorem eq_ifeq_of_mem {insn : Instruction} (hmem : insn ∈ s.comparisons)
    (hjump : insn.isConditionalJump = true) : ∃ target, insn = .jump .ifeq target := by
  obtain ⟨group, -, hchain⟩ := List.mem_flatMap.1 hmem
  exact s.eq_ifeq_of_mem_chain hchain hjump

variable {s} {i : Nat} {insn : Instruction}

/-- The instructions of the code, and where those are that matter. -/
theorem cases_of_getElem? (hi : s.code[i]? = some insn) :
    insn = hashCall ∨ (i = 1 ∧ insn = s.hashSwitch) ∨
      (∃ x y, s.comparisons = x ++ insn :: y ∧ i = x.length + 2) ∨ insn = .label s.dispatch ∨
      insn = .localVar .iload s.chosen ∨ (i = s.code.length - 1 ∧ insn = s.select) := by
  have hlength : s.code.length = s.comparisons.length + 5 := by
    simp [code]
  match i with
  | 0 => exact .inl (Option.some.inj hi).symm
  | 1 => exact .inr (.inl ⟨rfl, (Option.some.inj hi).symm⟩)
  | j + 2 =>
      change (s.comparisons ++ [.label s.dispatch, .localVar .iload s.chosen, s.select])[j]? =
        some insn at hi
      refine .inr (.inr ?_)
      rcases Nat.lt_or_ge j s.comparisons.length with hlt | hge
      · rw [List.getElem?_append_left hlt] at hi
        obtain ⟨_, hget⟩ := List.getElem?_eq_some_iff.1 hi
        refine .inl ⟨s.comparisons.take j, s.comparisons.drop (j + 1), ?_, ?_⟩
        · rw [← hget, List.getElem_cons_drop, List.take_append_drop]
        · rw [List.length_take, Nat.min_eq_left (Nat.le_of_lt hlt)]
      · rw [List.getElem?_append_right hge] at hi
        obtain ⟨k, rfl⟩ := Nat.exists_eq_add_of_le hge
        rw [Nat.add_sub_cancel_left] at hi
        match k with
        | 0 => exact .inr (.inl (Option.some.inj hi).symm)
        | 1 => exact .inr (.inr (.inl (Option.some.inj hi).symm))
        | 2 => exact .inr (.inr (.inr ⟨by omega, (Option.some.inj hi).symm⟩))
        | n + 3 => cases hi

/-- The conditional jumps of the code are in the comparisons. -/
theorem exists_comparison (hselect : s.select.isSwitch = true) (hi : s.code[i]? = some insn)
    (hjump : insn.isConditionalJump = true) :
    ∃ x y, s.comparisons = x ++ insn :: y ∧ i = x.length + 2 := by
  rcases cases_of_getElem? hi with rfl | ⟨-, rfl⟩ | hcomparison | rfl | rfl | ⟨-, rfl⟩
  · cases hjump
  · cases hjump
  · exact hcomparison
  · cases hjump
  · cases hjump
  · rw [(Instruction.forms_of_isSwitch hselect).2.2] at hjump
    cases hjump

/-- The only switches of the code are its two. -/
theorem eq_of_isSwitch (hi : s.code[i]? = some insn) (hswitch : insn.isSwitch = true) :
    i = 1 ∨ i = s.code.length - 1 := by
  rcases cases_of_getElem? hi with rfl | ⟨rfl, -⟩ | ⟨x, y, hsplit, -⟩ | rfl | rfl | ⟨rfl, -⟩
  · cases hswitch
  · exact .inl rfl
  · have hkept := StringSwitch.forall_of_run? s.run?_comparisons insn (by simp [hsplit])
    rw [hkept.2] at hswitch
    cases hswitch
  · cases hswitch
  · cases hswitch
  · exact .inr rfl

theorem isLine_of_mem (hselect : s.select.isSwitch = true) :
    ∀ insn ∈ s.code, insn.isLine = false := by
  have hcomparisons := StringSwitch.forall_of_run? s.run?_comparisons
  simp only [code, List.forall_mem_cons, List.forall_mem_append]
  exact ⟨rfl, rfl, fun insn hinsn => (hcomparisons insn hinsn).1, rfl, rfl,
    (Instruction.forms_of_isSwitch hselect).2.1, List.forall_mem_nil _⟩

end HashDispatch

/-! ## Scans -/

/-- Code without markers is on the line of the code before it. -/
theorem Body.lineBefore_within {code pre within post : List Instruction}
    (hcode : code = pre ++ (within ++ post)) (hwithin : ∀ insn ∈ within, insn.isLine = false)
    {i : Nat} (hi : i ≤ within.length) :
    lineBefore code (pre.length + i) = (markedLines pre).getLast? := by
  have htaken : ∀ insn ∈ within.take i, insn.isLine = false := fun insn hinsn =>
    hwithin insn (List.mem_of_mem_take hinsn)
  rw [lineBefore, hcode, List.take_length_add_append, List.take_append_of_le_length hi,
    markedLines_append, markedLines_eq_nil htaken, List.append_nil]

/-- The code starts with labels and a marker. -/
def Body.StartsMarked (code : List Instruction) : Prop :=
  ∃ (labels : List Label) (other : UInt32) (rest : List Instruction),
    code = labels.map .label ++ .line other :: rest

/-- What executes there is not on a line that is not marked there. -/
theorem Body.StartsMarked.lineBefore_ne {line : UInt32} {after : List Instruction}
    (h : StartsMarked after) (pre : List Instruction) {j : Nat} {insn : Instruction}
    (hj : after[j]? = some insn) (hinsn : insn.isExecutable = true)
    (hunmarked : line ∉ markedLines (after.take j)) :
    lineBefore (pre ++ after) (pre.length + j) ≠ some line := by
  obtain ⟨labels, other, rest, rfl⟩ := h
  intro hline
  rw [lineBefore, List.take_length_add_append, markedLines_append, List.getLast?_append] at hline
  rcases Nat.lt_trichotomy labels.length j with hlt | rfl | hgt
  · -- The marker comes before the position, so the line is that of a marker of this code.
    have hmarker : other ∈
        markedLines ((labels.map Instruction.label ++ .line other :: rest).take j) := by
      obtain ⟨k, rfl⟩ := Nat.exists_eq_add_of_lt hlt
      rw [List.take_append, markedLines_append, List.length_map, Nat.add_assoc,
        Nat.add_sub_cancel_left]
      exact List.mem_append_right _ List.mem_cons_self
    obtain ⟨last, hlast⟩ :=
      Option.ne_none_iff_exists'.1 (mt List.getLast?_eq_none_iff.1 (List.ne_nil_of_mem hmarker))
    rw [hlast, Option.some_or] at hline
    obtain rfl := Option.some.inj hline
    exact hunmarked (List.mem_of_getLast? hlast)
  · -- At the marker.
    rw [List.getElem?_append_right (by simp)] at hj
    simp only [List.length_map, Nat.sub_self, List.getElem?_cons_zero] at hj
    cases hj
    cases hinsn
  · -- Among the labels.
    rw [List.getElem?_append_left (by simpa using hgt), List.getElem?_map] at hj
    obtain ⟨label, -, rfl⟩ := Option.map_eq_some_iff.1 hj
    cases hinsn

section Lowered

variable {filters : List Filter} {e : Enumeration} {code pre after : List Instruction}
  {s : HashDispatch} {line : UInt32}

/-- The code of a switch over strings, on the line of the code before it. -/
structure HashDispatch.In (s : HashDispatch) (code pre after : List Instruction) (line : UInt32) :
    Prop where
  code_eq : code = pre ++ (s.code ++ after)
  line_eq : (Body.markedLines pre).getLast? = some line
  select_isSwitch : s.select.isSwitch = true

namespace HashDispatch.In

variable (h : s.In code pre after line)

include h

theorem getElem?_add {i : Nat} (hi : i < s.code.length) : code[pre.length + i]? = s.code[i]? := by
  rw [h.code_eq, List.getElem?_append_right (Nat.le_add_right _ _), Nat.add_sub_cancel_left,
    List.getElem?_append_left hi]

theorem lineBefore_add {i : Nat} (hi : i ≤ s.code.length) :
    Body.lineBefore code (pre.length + i) = some line := by
  rw [Body.lineBefore_within h.code_eq (HashDispatch.isLine_of_mem h.select_isSwitch) hi, h.line_eq]

/-- The region is open from the first switch on. -/
theorem after_hashSwitch (hregister : e.switches = true) :
    ∃ opened, Noise.stringSwitch.stateAfter e (s.hashSwitch :: hashCall :: pre.reverse) =
      .dispatch opened .base := by
  refine StringSwitch.after_hashed rfl rfl ?_
  rw [e.isSome_switchHere, hregister, e.currentLine_registered rfl,
    (e.reads_registered _).currentLine, List.reverse_reverse, h.line_eq]
  rfl

/-- The jumps after the comparisons are retracted. -/
theorem jump_retracted (hregister : e.switches = true) (hfilter : Filter.stringSwitch ∈ filters)
    {site : JumpSite} (hsite : site ∈ (Scan.withFilters filters e code).jumps) {i : Nat}
    {insn : Instruction} (hi : s.code[i]? = some insn) (hjump : insn.isConditionalJump = true)
    (hindex : site.index = pre.length + i) : site.retracted = true := by
  obtain ⟨x, y, hsplit, rfl⟩ := exists_comparison h.select_isSwitch hi hjump
  obtain ⟨opened, hopened⟩ := h.after_hashSwitch hregister
  have hrun := s.run?_comparisons
  rw [hsplit] at hrun
  have hasked := StringSwitch.asks_of_run? hrun hjump hopened
  have hcode : code = (pre ++ hashCall :: s.hashSwitch :: x) ++ insn ::
      (y ++ ([.label s.dispatch, .localVar .iload s.chosen, s.select] ++ after)) := by
    rw [h.code_eq, HashDispatch.code, hsplit]
    simp
  have hhistory : (pre ++ hashCall :: s.hashSwitch :: x).reverse =
      x.reverse ++ s.hashSwitch :: hashCall :: pre.reverse := by
    simp
  refine Scan.jump_retracted_of_asks hfilter hsite hcode ?_ ?_
  · simp only [hindex, List.length_append, List.length_cons]
  · rw [hhistory]
    exact hasked

/-- Each of them is registered. -/
theorem exists_jump (hregister : e.jumps = true) {i : Nat} {insn : Instruction}
    (hi : s.code[i]? = some insn) (hjump : insn.isConditionalJump = true) :
    ∃ site ∈ (Scan.withFilters filters e code).jumps,
      site.index = pre.length + i ∧ site.line = line := by
  have hlt : i < s.code.length := (List.getElem?_eq_some_iff.1 hi).1
  have hat : Body.jumpAt? code (pre.length + i) =
      some { index := pre.length + i, line } := by
    rw [Body.jumpAt?, h.getElem?_add hlt, hi, h.lineBefore_add (Nat.le_of_lt hlt)]
    exact if_pos hjump
  obtain ⟨site, hsite, hbare⟩ := Scan.exists_of_jumpAt? hregister hat
  exact ⟨site, hsite, congrArg JumpSite.index hbare, congrArg JumpSite.line hbare⟩

/-- Both switches are registered. -/
theorem exists_switch (hregister : e.switches = true) {i : Nat} {insn : Instruction}
    (hi : s.code[i]? = some insn) {keys : List Int32} (hkeys : insn.switchKeys? = some keys) :
    ∃ site ∈ (Scan.withFilters filters e code).switches,
      site.index = pre.length + i ∧ site.line = line ∧ site.keys = keys := by
  have hlt : i < s.code.length := (List.getElem?_eq_some_iff.1 hi).1
  have hat : Body.switchAt? code (pre.length + i) =
      some { index := pre.length + i, line, keys } := by
    rw [Body.switchAt?, h.getElem?_add hlt, hi, h.lineBefore_add (Nat.le_of_lt hlt),
      Option.bind_some, hkeys]
    rfl
  obtain ⟨site, hsite, hbare⟩ := Scan.exists_of_switchAt? hregister hat
  exact ⟨site, hsite, congrArg SwitchSite.index hbare, congrArg SwitchSite.line hbare,
    congrArg SwitchSite.keys hbare⟩

/-- The switch over hash codes is retracted. -/
theorem hashSwitch_retracted (hfilter : Filter.stringSwitch ∈ filters) {site : SwitchSite}
    (hsite : site ∈ (Scan.withFilters filters e code).switches)
    (hindex : site.index = pre.length + 1) : site.retracted = true := by
  have hcode : code = (pre ++ [hashCall]) ++ s.hashSwitch ::
      (s.comparisons ++ ([.label s.dispatch, .localVar .iload s.chosen, s.select] ++ after)) := by
    rw [h.code_eq, HashDispatch.code]
    simp
  have hplace : site.index = (pre ++ [hashCall]).length := by simp [hindex]
  rw [Scan.switch_retracted_iff hsite hcode hplace]
  exact ⟨.stringSwitch, hfilter, pre, hashCall, rfl, rfl⟩

theorem code_eq_select : code = ((pre ++ hashCall :: s.hashSwitch ::
    (s.comparisons ++ [Instruction.label s.dispatch])) ++ [.localVar .iload s.chosen]) ++
      s.select :: after := by
  rw [h.code_eq, HashDispatch.code]
  simp

omit h in
theorem index_select {site : SwitchSite} (hindex : site.index = pre.length + (s.code.length - 1)) :
    site.index = ((pre ++ hashCall :: s.hashSwitch :: (s.comparisons ++
      [Instruction.label s.dispatch])) ++ [Instruction.localVar .iload s.chosen]).length := by
  simp [hindex, HashDispatch.code]

/-- The switch over numbers is kept: a number is neither a hash code nor a state label. -/
theorem select_kept {site : SwitchSite}
    (hsite : site ∈ (Scan.withFilters filters e code).switches)
    (hindex : site.index = pre.length + (s.code.length - 1)) : site.retracted = false := by
  refine Bool.eq_false_iff.2 fun hretracted => ?_
  obtain ⟨filter, -, earlier, operand, hpre, hoperand⟩ :=
    (Scan.switch_retracted_iff hsite h.code_eq_select (index_select hindex)).1 hretracted
  -- What a filter looks for would have to be the load right before the switch.
  obtain ⟨-, hlast⟩ := List.append_inj' hpre rfl
  cases hlast
  cases filter <;> cases hoperand

/-- What is on the line from the call of `hashCode` on is in the code, until the line is marked
again. -/
theorem getElem?_of_line (hafter : Body.StartsMarked after) {i : Nat} {insn : Instruction}
    (hi : code[i]? = some insn) (hinsn : insn.isExecutable = true)
    (hline : Body.lineBefore code i = some line) (hstart : pre.length ≤ i)
    (hunmarked : line ∉ Body.markedLines (after.take (i - (pre.length + s.code.length)))) :
    s.code[i - pre.length]? = some insn := by
  have hlt : i < pre.length + s.code.length := by
    by_contra hge
    have hcode : code = (pre ++ s.code) ++ after := by rw [h.code_eq, List.append_assoc]
    have hlength : (pre ++ s.code).length = pre.length + s.code.length := List.length_append
    obtain ⟨j, rfl⟩ := Nat.exists_eq_add_of_le (Nat.not_lt.1 hge)
    rw [Nat.add_sub_cancel_left] at hunmarked
    rw [hcode, ← hlength] at hi hline
    rw [List.getElem?_append_right (Nat.le_add_right _ _), Nat.add_sub_cancel_left] at hi
    exact hafter.lineBefore_ne _ hi hinsn hunmarked hline
  rw [← hi, ← h.getElem?_add (by omega), Nat.add_sub_cancel' hstart]

/-- The only jumps on the line, from the call of `hashCode` on, are those after the comparisons. -/
theorem exists_target (hafter : Body.StartsMarked after) {site : JumpSite}
    (hsite : site ∈ (Scan.withFilters filters e code).jumps) (hline : site.line = line)
    (hstart : pre.length ≤ site.index)
    (hunmarked : line ∉
      Body.markedLines (after.take (site.index - (pre.length + s.code.length)))) :
    ∃ target, s.code[site.index - pre.length]? = some (.jump .ifeq target) := by
  obtain ⟨op, target, hat, hconditional, hbefore⟩ := Scan.exists_conditionalJump hsite
  have hi := h.getElem?_of_line hafter hat rfl (hline ▸ hbefore) hstart hunmarked
  obtain ⟨x, y, hsplit, -⟩ := exists_comparison h.select_isSwitch hi hconditional
  have hmem : .jump op target ∈ s.comparisons := by simp [hsplit]
  obtain ⟨target', htarget⟩ := s.eq_ifeq_of_mem hmem hconditional
  exact ⟨target', htarget ▸ hi⟩

/-- The only switches there are the two. -/
theorem index_of_switch (hafter : Body.StartsMarked after) {site : SwitchSite}
    (hsite : site ∈ (Scan.withFilters filters e code).switches) (hline : site.line = line)
    (hstart : pre.length ≤ site.index)
    (hunmarked : line ∉
      Body.markedLines (after.take (site.index - (pre.length + s.code.length)))) :
    site.index = pre.length + 1 ∨ site.index = pre.length + (s.code.length - 1) := by
  obtain ⟨insn, hat, hkeys, hbefore⟩ := Scan.exists_switchKeys hsite
  have hswitch : insn.isSwitch = true := by
    rw [← Instruction.isSome_switchKeys?, hkeys]
    rfl
  have hi := h.getElem?_of_line hafter hat (Instruction.forms_of_isSwitch hswitch).1
    (hline ▸ hbefore) hstart hunmarked
  have hplace := eq_of_isSwitch hi hswitch
  omega

end HashDispatch.In
end Lowered

/-! ### With all filters -/

/-- A marker that covers anything else than labels, `nop` and `return` is kept. -/
theorem Options.marker_kept {options : Options} (hfilters : options.filters = true) (scope : Scope)
    {body : Body} {before rest : List Instruction} {line : UInt32}
    (hcode : body.code = before ++ .line line :: rest) {insn : Instruction}
    (hcovered : insn ∈ rest.takeWhile fun insn => !insn.isLine) (hfiller : insn.isFiller = false)
    (hreturn : insn ≠ .simple .returnVoid) :
    ∃ marker ∈ (options.scan Filter.standard scope body).markers,
      marker.index = before.length ∧ marker.line = line ∧ marker.retracted = false := by
  have hdrop : body.code.drop (before.length + 1) = rest := by
    rw [hcode, ← List.drop_drop, List.drop_left]
    rfl
  have hsite : ({ index := before.length, line }, rest) ∈ Track.markersFrom 0 body.code :=
    Track.mem_markersFrom.2 ⟨before.length, line, by simp [hcode], by simp [hdrop]⟩
  have hmarker := List.mem_map_of_mem (f := Track.left (Track.markersFrom 0 body.code)) hsite
  rw [← options.markers_scan hfilters scope] at hmarker
  refine ⟨_, hmarker, rfl, rfl, Bool.eq_false_iff.2 fun hretracted => ?_⟩
  rcases (Track.left_retracted_iff hsite).1 hretracted with
    hhollow | ⟨⟨labels, labels', hcloses⟩, -⟩
  · rw [Body.HollowAt, Body.coveredAt, hdrop] at hhollow
    rw [hhollow insn hcovered] at hfiller
    cases hfiller
  · have hmem : insn ∈ rest := (List.takeWhile_prefix _).subset hcovered
    rw [hdrop] at hcloses
    rw [hcloses, List.mem_append, List.mem_cons, List.mem_map, List.mem_map] at hmem
    rcases hmem with ⟨label, -, rfl⟩ | hleaves | ⟨label, -, rfl⟩
    · cases hfiller
    · exact hreturn hleaves
    · cases hfiller

/-- What a scan makes of the code of a switch over strings that starts at a position, on a line
whose marker stands at another one.  The jumps after the comparisons and the first switch are
registered and retracted, and the second switch is kept.  Its default is retracted if the code after
it reports that no case matched.  There is nothing else on the line from the start on, until the
line is marked again. -/
structure HashDispatch.Reduced (s : HashDispatch) (scan : Scan) (line : UInt32) (mark start : Nat)
    (after : List Instruction) : Prop where
  marker : ∃ marker ∈ scan.markers, marker.index = mark ∧ marker.line = line ∧
    marker.retracted = false
  hashSwitch : ∃ site ∈ scan.switches, site.index = start + 1 ∧ site.line = line ∧
    site.keys = s.groups.map HashGroup.hash ∧ site.retracted = true
  comparisons : ∀ i target, s.code[i]? = some (.jump .ifeq target) →
    ∃ site ∈ scan.jumps, site.index = start + i ∧ site.line = line ∧ site.retracted = true
  select : ∃ site ∈ scan.switches, site.index = start + (s.code.length - 1) ∧ site.line = line ∧
    s.select.switchKeys? = some site.keys ∧ scan.keepsSwitch site = true ∧
    ∀ otherwise, NoBranchMatched.defaultOf? s.select = some otherwise →
      (site.defaultRetracted = true ↔ NoBranchMatched.ReportsAt otherwise after)
  jumps_on : ∀ site ∈ scan.jumps, site.line = line → start ≤ site.index →
    line ∉ Body.markedLines (after.take (site.index - (start + s.code.length))) →
    site.retracted = true ∧ ∃ target, s.code[site.index - start]? = some (.jump .ifeq target)
  switches_on : ∀ site ∈ scan.switches, site.line = line → start ≤ site.index →
    line ∉ Body.markedLines (after.take (site.index - (start + s.code.length))) →
    (site.index = start + 1 ∧ site.retracted = true) ∨
      (site.index = start + (s.code.length - 1) ∧ site.retracted = false)

/-- With all filters on, a switch over strings keeps the branches of its cases.  Nothing is assumed
of the strings and their hash codes. -/
theorem Options.reduced_hashDispatch {options : Options} (hfilters : options.filters = true)
    (hbranches : options.branches = true) {scope : Scope}
    (hmethod : scope.method.isInitializer = false) {body : Body} {s : HashDispatch}
    (hselect : s.select.isSwitch = true) {before selector after : List Instruction} {line : UInt32}
    (hcode : body.code = (before ++ .line line :: selector) ++ (s.code ++ after))
    (hselector : ∀ insn ∈ selector, insn.isLine = false)
    (hafter : Body.StartsMarked after) :
    s.Reduced (options.scan Filter.standard scope body) line before.length
      (before ++ .line line :: selector).length after := by
  have hjumps : (Enumeration.forMethod options.branches scope).jumps = true := by
    simp [Enumeration.forMethod, hbranches, hmethod]
  have hswitches : (Enumeration.forMethod options.branches scope).switches = true := hbranches
  have hstring : Filter.stringSwitch ∈ Filter.applicable Filter.standard scope :=
    List.mem_filter.2 ⟨by decide, rfl⟩
  have hunmatched : Filter.noBranchMatched ∈ Filter.applicable Filter.standard scope :=
    List.mem_filter.2 ⟨by decide, rfl⟩
  have h : s.In body.code (before ++ .line line :: selector) after line :=
    { code_eq := hcode
      line_eq := by
        rw [Body.markedLines_append, Body.markedLines, Body.markedLines_eq_nil hselector]
        simp
      select_isSwitch := hselect }
  -- The marker covers the call of `hashCode`, so it is kept, and so are the branches on its line.
  have hcovered : HashDispatch.hashCall ∈
      (selector ++ (s.code ++ after)).takeWhile fun insn => !insn.isLine := by
    rw [List.takeWhile_append_of_pos fun insn hinsn => by simp [hselector insn hinsn]]
    exact List.mem_append_right _ List.mem_cons_self
  have hcall : HashDispatch.hashCall ≠ .simple .returnVoid := by simp [HashDispatch.hashCall]
  have hmarker := options.marker_kept hfilters scope (hcode.trans (List.append_assoc _ _ _))
    hcovered rfl hcall
  have hkept : (options.scan Filter.standard scope body).keepsLine line = true := by
    obtain ⟨marker, hmem, -, rfl, hretracted⟩ := hmarker
    rw [Scan.keepsLine, List.contains_iff_mem, Scan.keptLines]
    exact List.mem_map_of_mem (List.mem_filter.2 ⟨hmem, by simp [hretracted]⟩)
  rw [options.scan_standard hfilters] at hmarker hkept ⊢
  constructor
  case marker => exact hmarker
  case hashSwitch =>
    have hfirst : s.code[1]? = some s.hashSwitch := rfl
    obtain ⟨site, hsite, hindex, hline, hkeys⟩ := h.exists_switch hswitches hfirst rfl
    exact ⟨site, hsite, hindex, hline, hkeys, h.hashSwitch_retracted hstring hsite hindex⟩
  case comparisons =>
    intro i target hi
    obtain ⟨site, hsite, hindex, hline⟩ := h.exists_jump hjumps hi rfl
    exact ⟨site, hsite, hindex, hline, h.jump_retracted hswitches hstring hsite hi rfl hindex⟩
  case select =>
    have hlast : s.code[s.code.length - 1]? = some s.select := by
      simp [HashDispatch.code]
    obtain ⟨keys, hkeys⟩ :=
      Option.isSome_iff_exists.1 (Instruction.isSome_switchKeys?.trans hselect)
    obtain ⟨site, hsite, hindex, hline, rfl⟩ := h.exists_switch hswitches hlast hkeys
    have hretracted := h.select_kept hsite hindex
    refine ⟨site, hsite, hindex, hline, hkeys, ?_, fun otherwise hdefault => ?_⟩
    · rw [Scan.keepsSwitch, hretracted, hline, hkept]
      rfl
    · exact Scan.defaultRetracted_iff_reportsAt hunmatched hsite hretracted h.code_eq_select
        (HashDispatch.In.index_select hindex) hdefault
  case jumps_on =>
    intro site hsite hline hstart hunmarked
    obtain ⟨target, hi⟩ := h.exists_target hafter hsite hline hstart hunmarked
    have hindex := (Nat.add_sub_cancel' hstart).symm
    exact ⟨h.jump_retracted hswitches hstring hsite hi rfl hindex, target, hi⟩
  case switches_on =>
    intro site hsite hline hstart hunmarked
    rcases h.index_of_switch hafter hsite hline hstart hunmarked with hindex | hindex
    · exact .inl ⟨hindex, h.hashSwitch_retracted hstring hsite hindex⟩
    · exact .inr ⟨hindex, h.select_kept hsite hindex⟩

/-! ## Two strings with one hash code -/

namespace Colliding

/-- `"Aa"` and `"BB"` have one hash code. -/
def dispatch : HashDispatch where
  subject := 0
  chosen := 1
  groups := [⟨2112, [⟨⟨0⟩, "Aa", 0, true⟩, ⟨⟨1⟩, "BB", 1, false⟩]⟩]
  dispatch := ⟨2⟩
  select := .tableSwitch 0 1 ⟨5⟩ [⟨3⟩, ⟨4⟩]

def selector : List Instruction :=
  [.simple .iconstM1, .localVar .istore 1, .localVar .aload 0]

/-- The cases.  The default throws, because somebody wrote that. -/
def cases : List Instruction :=
  [.label ⟨3⟩, .line 6, .int .bipush 10, .simple .ireturn,
    .label ⟨4⟩, .line 7, .int .bipush 20, .simple .ireturn,
    .label ⟨5⟩, .line 8, .type .new "java/lang/IncompatibleClassChangeError", .simple .dup,
    .method .invokespecial "java/lang/IncompatibleClassChangeError" "<init>" "()V" false,
    .simple .athrow]

def body : Body :=
  .ofParts ((.line 5 :: selector) ++ (dispatch.code ++ cases)) [] 2 2

def method : Method where
  name := "pick"
  descriptor := "(Ljava/lang/String;)I"
  access := ⟨0x9⟩
  body := some body

def scan : Scan :=
  ({} : Options).scan Filter.standard ⟨.ofMethod "demo/Pick" method, method⟩ body

theorem startsMarked_cases : Body.StartsMarked cases :=
  ⟨[⟨3⟩], 6, _, rfl⟩

theorem switches_scan : scan.switches =
    [⟨5, 5, [2112], true, false⟩, ⟨23, 5, [0, 1], false, true⟩] := by
  with_unfolding_all rfl

end Colliding

theorem Options.reduced_hashDispatch_colliding : ({} : Options).filters = true ∧
    ({} : Options).branches = true ∧ Colliding.method.isInitializer = false ∧
    Colliding.dispatch.select.isSwitch = true ∧
    Colliding.body.code = ([] ++ .line 5 :: Colliding.selector) ++
      (Colliding.dispatch.code ++ Colliding.cases) ∧
    (∀ insn ∈ Colliding.selector, insn.isLine = false) ∧ Body.StartsMarked Colliding.cases ∧
    Colliding.dispatch.Reduced Colliding.scan 5 0 4 Colliding.cases := by
  have hselector : ∀ insn ∈ Colliding.selector, insn.isLine = false := by decide
  have hcode : Colliding.body.code = ([] ++ .line 5 :: Colliding.selector) ++
      (Colliding.dispatch.code ++ Colliding.cases) := by
    rfl
  exact ⟨rfl, rfl, rfl, rfl, hcode, hselector, Colliding.startsMarked_cases,
    reduced_hashDispatch rfl rfl rfl rfl hcode hselector Colliding.startsMarked_cases⟩

/-- Besides the comparisons, the default of the second switch is retracted. -/
theorem Options.defaultRetracted_colliding : Colliding.body.check = .ok () ∧
    Colliding.method.isInitializer = false ∧
    Colliding.body.code = (.line 5 :: Colliding.selector) ++
      (Colliding.dispatch.code ++ Colliding.cases) ∧
    5 ∉ Body.markedLines Colliding.cases ∧
    ∃ site ∈ Colliding.scan.switches, site.line = 5 ∧
      Colliding.dispatch.select.switchKeys? = some site.keys ∧
      site.retracted = false ∧ site.defaultRetracted = true := by
  refine ⟨by with_unfolding_all rfl, rfl, rfl, by decide, ⟨23, 5, [0, 1], false, true⟩, ?_, rfl,
    rfl, rfl, rfl⟩
  rw [Colliding.switches_scan]
  decide

end BytecodeCoverage
