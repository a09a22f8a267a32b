import BytecodeCoverage.Code.Instruction

/-!
# The forms of instructions

The tests that patterns make of an instruction tell its form.
-/

namespace BytecodeCoverage
namespace Instruction

variable {insn : Instruction} {op : Opcode} {owner name descriptor text : String}

theorem isSimple_iff : insn.isSimple op = true ↔ insn = .simple op := by
  cases insn <;> simp [isSimple]

theorem isJumpWith_iff : insn.isJumpWith op = true ↔ ∃ target, insn = .jump op target := by
  cases insn <;> simp [isJumpWith]

theorem loadIndex?_eq_some (h : op.isLoad = true) {index : UInt16} :
    insn.loadIndex? op = some index ↔ insn = .localVar op index := by
  unfold loadIndex?
  split
  · grind
  · simp_all

theorem isSome_loadIndex? (h : op.isLoad = true) :
    (insn.loadIndex? op).isSome = true ↔ ∃ index, insn = .localVar op index := by
  simp [Option.isSome_iff_exists, loadIndex?_eq_some h]

theorem isNew_iff : insn.isNew name = true ↔ insn = .type .new name := by
  unfold isNew
  split <;> simp_all

theorem isCallTo_iff (h : owner ≠ "") : insn.isCallTo owner name = true ↔
    ∃ op descriptor onInterface, insn = .method op owner name descriptor onInterface := by
  unfold isCallTo
  split <;> simp_all

theorem isCallTo_any_iff : insn.isCallTo "" name = true ↔
    ∃ op owner descriptor onInterface, insn = .method op owner name descriptor onInterface := by
  unfold isCallTo
  split <;> simp_all

theorem stringConstant?_eq_some :
    insn.stringConstant? = some text ↔ insn = .ldc (.string text) := by
  unfold stringConstant?
  split <;> simp_all

theorem isSome_switchKeys? : insn.switchKeys?.isSome = insn.isSwitch := by
  cases insn <;> rfl

/-- A switch is an instruction of its own kind. -/
theorem forms_of_isSwitch (h : insn.isSwitch = true) :
    insn.isExecutable = true ∧ insn.isLine = false ∧ insn.isConditionalJump = false := by
  cases insn with
  | tableSwitch | lookupSwitch => exact ⟨rfl, rfl, rfl⟩
  | _ => cases h

/-- An integer is pushed by an instruction that mentions nothing but the integer. -/
theorem forms_of_pushInt (value : Int32) :
    (∃ op, pushInt value = .simple op) ∨ (∃ op, pushInt value = .int op value) ∨
      pushInt value = .ldc (.int value) := by
  unfold pushInt
  split
  case h_8 =>
      split
      · exact .inr (.inl ⟨_, rfl⟩)
      · split
        · exact .inr (.inl ⟨_, rfl⟩)
        · exact .inr (.inr rfl)
  all_goals exact .inl ⟨_, rfl⟩

end Instruction
end BytecodeCoverage
