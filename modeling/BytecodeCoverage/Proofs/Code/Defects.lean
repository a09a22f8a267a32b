import BytecodeCoverage.Proofs.Code.Positions

/-!
# Bodies without defects

A body is accepted if it is well formed: labels are placed once, targets and bounds of protected
ranges are placed, and the keys of a switch go with its targets.

**Main definitions.**
* `Instruction.WellShaped`: the keys of a switch go with its targets.
* `Body.WellFormed`: what the check asks for.

**Results.**
* `Body.check_eq_ok`: the accepted bodies are the well-formed ones.
* `Body.sound_of_check`: bodies without defects are sound.
-/

namespace BytecodeCoverage

/-- A switch has one target for each of its keys, and the keys ascend. -/
def Instruction.WellShaped : Instruction → Prop
  | .tableSwitch low high _ targets =>
      ¬ high < low ∧ (targets.length : Int) = high.toInt - low.toInt + 1
  | .lookupSwitch _ keys targets => keys.length = targets.length ∧ Body.ascends keys = true
  | _ => True

/-- A well-shaped switch has one target for each key. -/
theorem Instruction.WellShaped.length_targets {insn : Instruction} (h : insn.WellShaped)
    {keys : List Int32} (hkeys : insn.switchKeys? = some keys) :
    insn.targets.tail.length = keys.length := by
  cases insn <;> cases hkeys
  · obtain ⟨-, hcount⟩ := h
    simp only [targets, List.tail_cons, keyRange, List.length_map, List.length_range]
    omega
  · exact h.1.symm

namespace Body

/-- No label is placed twice, every target and every bound of a protected range is placed, and
every switch is well shaped. -/
structure WellFormed (body : Body) : Prop extends body.Sound where
  shaped : ∀ insn ∈ body.code, insn.WellShaped
  bounds : ∀ range ∈ body.tryRanges, ∀ label ∈ range.labels, label ∈ body.placed

theorem switchDefect?_eq_none {i : Nat} {insn : Instruction} :
    switchDefect? i insn = none ↔ insn.WellShaped := by
  cases insn with
  | tableSwitch low high otherwise targets =>
      simp only [switchDefect?, Instruction.WellShaped]
      by_cases hrange : high < low
      · simp [hrange]
      · by_cases hcount : (targets.length : Int) = high.toInt - low.toInt + 1 <;>
          simp [hrange, hcount]
  | lookupSwitch otherwise keys targets =>
      simp only [switchDefect?, Instruction.WellShaped]
      by_cases hcount : keys.length = targets.length
      · by_cases hkeys : ascends keys = true <;> simp [hcount, hkeys]
      · simp [hcount]
  | _ => simp [switchDefect?, Instruction.WellShaped]

theorem targetDefect?_eq_none {placed : List Label} {i : Nat} {insn : Instruction} :
    targetDefect? placed i insn = none ↔ ∀ label ∈ insn.targets, label ∈ placed := by
  simp [targetDefect?, List.find?_eq_none]

theorem duplicate?_eq_none {seen : List Label} {i : Nat} {code : List Instruction} :
    duplicate? seen i code = none ↔
      (placedIn code).Nodup ∧ ∀ label ∈ placedIn code, label ∉ seen := by
  induction code generalizing seen i with
  | nil => simp [duplicate?, placedIn]
  | cons insn rest ih =>
      cases insn with
      | label placed =>
          simp only [duplicate?, placedIn, List.nodup_cons, List.mem_cons, forall_eq_or_imp]
          split
          · rename_i hseen
            rw [List.contains_iff_mem] at hseen
            exact iff_of_false (Option.some_ne_none _) fun h => h.2.1 hseen
          · rename_i hseen
            rw [List.contains_iff_mem] at hseen
            simp only [ih, List.mem_cons, not_or]
            constructor
            · rintro ⟨hnodup, hfresh⟩
              exact ⟨⟨fun hmem => (hfresh placed hmem).1 rfl, hnodup⟩, hseen,
                fun label hlabel => (hfresh label hlabel).2⟩
            · rintro ⟨⟨hplaced, hnodup⟩, -, hfresh⟩
              exact ⟨hnodup, fun label hlabel =>
                ⟨fun heq => hplaced (heq ▸ hlabel), hfresh label hlabel⟩⟩
      | _ => exact ih

theorem instructionDefect?_eq_none {placed : List Label} {i : Nat} {code : List Instruction} :
    instructionDefect? placed i code = none ↔
      ∀ insn ∈ code, insn.WellShaped ∧ ∀ label ∈ insn.targets, label ∈ placed := by
  induction code generalizing i with
  | nil => simp [instructionDefect?]
  | cons insn rest ih =>
      rw [instructionDefect?, Option.or_eq_none_iff, Option.or_eq_none_iff, switchDefect?_eq_none,
        targetDefect?_eq_none, ih, List.forall_mem_cons]

theorem boundDefect?_eq_none {placed : List Label} {ranges : List TryRange} :
    boundDefect? placed ranges = none ↔
      ∀ range ∈ ranges, ∀ label ∈ range.labels, label ∈ placed := by
  simp only [boundDefect?, Option.map_eq_none_iff, List.find?_eq_none, List.mem_flatMap]
  simp only [Bool.not_eq_true', Bool.not_eq_false, List.contains_iff_mem]
  exact ⟨fun h range hrange label hlabel => h label ⟨range, hrange, hlabel⟩,
    fun h label ⟨range, hrange, hlabel⟩ => h range hrange label hlabel⟩

/-- The accepted bodies are the well-formed ones. -/
theorem check_eq_ok {body : Body} : body.check = .ok () ↔ body.WellFormed := by
  have hcheck : body.check = .ok () ↔ body.defect? = none := by
    unfold check
    cases body.defect? <;> simp
  rw [hcheck, defect?, Option.or_eq_none_iff, Option.or_eq_none_iff, duplicate?_eq_none,
    instructionDefect?_eq_none, boundDefect?_eq_none]
  constructor
  · rintro ⟨⟨⟨hnodup, -⟩, hinsns⟩, hbounds⟩
    exact ⟨⟨hnodup, fun insn hinsn => (hinsns insn hinsn).2⟩, fun insn hinsn => (hinsns insn hinsn).1,
      hbounds⟩
  · rintro ⟨⟨hnodup, htargets⟩, hshaped, hbounds⟩
    exact ⟨⟨⟨hnodup, fun _ _ => List.not_mem_nil⟩,
      fun insn hinsn => ⟨hshaped insn hinsn, htargets insn hinsn⟩⟩, hbounds⟩

theorem sound_of_check {body : Body} (h : body.check = .ok ()) : body.Sound :=
  (check_eq_ok.1 h).toSound

end Body

end BytecodeCoverage
