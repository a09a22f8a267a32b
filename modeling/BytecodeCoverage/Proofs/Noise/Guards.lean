import BytecodeCoverage.Proofs.Code.Forms
import BytecodeCoverage.Proofs.Scan.Requests

/-!
# Guards that are found wherever they are

The first instruction of such a guard stands nowhere else in it.  So when a match fails, what has
been seen of it is no beginning of another one, and the machine can start again with the instruction
that it has failed on.  It finds every guard, and only guards.

Each state is characterized by the histories that lead to it, the latest instruction first.

**Main definitions.**
* `Filter.Word`: the instructions of a guard.

**Results.**
* `Filter.finds_words`: what a filter asks for along a history.
* `Scan.retracted_iff_word`: the jumps that are retracted by a filter alone.
-/

namespace BytecodeCoverage

open Noise

/-- A reference may be duplicated before it is tested. -/
def Copies (code : List Instruction) : Prop :=
  code = [] ∨ code = [.simple .dup]

/-- The words of the guards: the instructions before the jump, the jump, and the instructions after
it. -/
inductive Filter.Word : Filter → List Instruction → Instruction → List Instruction → Prop
  | negation {op : Opcode} {value : Int32} {first second : Instruction}
      (hop : op = .ifeq ∨ op = .ifne) (hvalue : value = 0 ∨ value = 1)
      (hfirst : first.intConstant? = some value) (hsecond : second.intConstant? = some (1 - value))
      (target stop : Label) :
      Word .booleanNegation [] (.jump op target)
        [first, .jump .goto stop, .label target, second, .label stop]
  | nullParameter {copy : List Instruction} {push : Instruction} (index : UInt16)
      (hcopy : Copies copy) (target : Label) (hpush : push.intConstant?.isSome = true)
      (op : Opcode) (owner descriptor : String) (onInterface : Bool) :
      Word .notNull (.localVar .aload index :: copy) (.jump .ifnonnull target)
        [push, .method op owner "$$$reportNull$$$0" descriptor onInterface]
  | nullException {copy : List Instruction} {exception : String} (index : UInt16)
      (hcopy : Copies copy) (target : Label)
      (hexception : exception = "java/lang/IllegalArgumentException" ∨
        exception = "java/lang/IllegalStateException" ∨
        exception = "java/lang/NullPointerException") :
      Word .notNull (.localVar .aload index :: copy) (.jump .ifnonnull target)
        [.type .new exception]
  | nullHelper {copy : List Instruction} {name : String} (index : UInt16)
      (hcopy : Copies copy) (target : Label) (hname : name = "throwNpe" ∨ name = "throwJavaNpe")
      (op : Opcode) (descriptor : String) (onInterface : Bool) :
      Word .notNull (.localVar .aload index :: copy) (.jump .ifnonnull target)
        [.method op "kotlin/jvm/internal/Intrinsics" name descriptor onInterface]
  | omittedArgument {op : Opcode} {push : Instruction} (hop : op = .ifeq ∨ op = .ifne)
      (hpush : push.intConstant?.isSome = true) (index : UInt16) (target : Label) :
      Word .defaultArgs [.localVar .iload index, push, .simple .iand] (.jump op target) []
  | superCall {text : String}
      (htext : "Super calls with default arguments not supported".toList <+: text.toList)
      (index : UInt16) (target : Label) :
      Word .unsupportedCall [.localVar .aload index] (.jump .ifnull target)
        [.type .new "java/lang/UnsupportedOperationException", .simple .dup, .ldc (.string text)]
  | property {read : Opcode} {copy : List Instruction}
      (hread : read = .getfield ∨ read = .getstatic)
      (owner name descriptor : String) (hcopy : Copies copy) (target : Label) (text : String)
      (op : Opcode) (descriptor' : String) (onInterface : Bool) :
      Word .lateinit (.field read owner name descriptor :: copy) (.jump .ifnonnull target)
        [.ldc (.string text), .method op "kotlin/jvm/internal/Intrinsics"
          "throwUninitializedPropertyAccessException" descriptor' onInterface]

namespace Noise

theorem loadsReference_iff {insn : Instruction} :
    loadsReference insn = true ↔ ∃ index, insn = .localVar .aload index :=
  Instruction.isSome_loadIndex? rfl

theorem pushesTextFrom_iff {opening : String} {insn : Instruction} :
    pushesTextFrom opening insn = true ↔
      ∃ text, opening.toList <+: text.toList ∧ insn = .ldc (.string text) := by
  simp [pushesTextFrom, startsWith, Option.any_eq_true, Instruction.stringConstant?_eq_some,
    and_comm]

variable {insn : Instruction} {ledger : Ledger} {id : JumpId} {e : Enumeration}
  {seen : List Instruction}

/-! ## Not-null assertions -/

namespace NotNull

variable {state : State}

theorem reports_iff : reports insn = true ↔
    (∃ exception, (exception = "java/lang/IllegalArgumentException" ∨
      exception = "java/lang/IllegalStateException" ∨
      exception = "java/lang/NullPointerException") ∧ insn = .type .new exception) ∨
    ∃ op name descriptor onInterface, (name = "throwNpe" ∨ name = "throwJavaNpe") ∧
      insn = .method op "kotlin/jvm/internal/Intrinsics" name descriptor onInterface := by
  have hcall {name : String} : insn.isCallTo intrinsics name = true ↔
      ∃ op descriptor onInterface, insn = .method op intrinsics name descriptor onInterface :=
    Instruction.isCallTo_iff (by decide)
  simp only [reports, guardExceptions, List.any_cons, List.any_nil, Bool.or_false, Bool.or_eq_true,
    Instruction.isNew_iff, hcall]
  grind [intrinsics]

theorem step_eq_loaded :
    (step state insn ledger).1 = .loaded ↔ ∃ index, insn = .localVar .aload index := by
  rw [← loadsReference_iff]
  constructor
  · cases hhere : ledger.jumpHere <;> cases state <;> grind [step, fst_orRestart, restart]
  · rw [loadsReference_iff]
    rintro ⟨index, rfl⟩
    cases state <;> rfl

theorem step_eq_duplicated :
    (step state insn ledger).1 = .duplicated ↔ state = .loaded ∧ insn = .simple .dup := by
  rw [← Instruction.isSimple_iff]
  cases hhere : ledger.jumpHere <;> cases state <;> grind [step, fst_orRestart, restart]

theorem step_eq_tested : (step state insn ledger).1 = .tested id ↔
    (state = .loaded ∨ state = .duplicated) ∧ (∃ target, insn = .jump .ifnonnull target) ∧
      ledger.jumpHere = some id := by
  cases hhere : ledger.jumpHere <;> cases state <;>
    grind [step, fst_orRestart, restart, Instruction.isSimple_iff, Instruction.isJumpWith_iff]

theorem step_eq_pushedIndex : (step state insn ledger).1 = .pushedIndex id ↔
    state = .tested id ∧ insn.intConstant?.isSome = true := by
  cases hhere : ledger.jumpHere <;> cases state <;> grind [step, fst_orRestart, restart]

theorem step_asks : (step state insn ledger).2 = .jump id ↔
    state = .tested id ∧ reports insn = true ∨
      state = .pushedIndex id ∧ insn.isCallTo "" "$$$reportNull$$$0" = true := by
  -- After the test, what reports is no index, so the two ways to end a word do not meet.
  have hapart : reports insn = true → insn.intConstant? = none := by
    grind [reports_iff, Instruction.intConstant?]
  cases state <;> grind [step, snd_orRestart]

theorem after_eq_loaded : notNull.stateAfter e seen = .loaded ↔
    ∃ index earlier, seen = .localVar .aload index :: earlier := by
  refine (notNull.stateAfter_eq_iff (by nofun) fun _ _ _ => step_eq_loaded).trans ?_
  grind

theorem after_eq_duplicated : notNull.stateAfter e seen = .duplicated ↔
    ∃ earlier, seen = .simple .dup :: earlier ∧ notNull.stateAfter e earlier = .loaded :=
  notNull.stateAfter_eq_iff_cons (by nofun) fun _ _ _ => step_eq_duplicated

theorem after_eq_tested : notNull.stateAfter e seen = .tested id ↔
    ∃ index copy target earlier, Copies copy ∧
      seen = .jump .ifnonnull target :: ((.localVar .aload index :: copy).reverse ++ earlier) ∧
      (e.registered seen).jumpHere = some id := by
  refine (notNull.stateAfter_eq_iff (by nofun) fun _ _ _ => step_eq_tested).trans ?_
  constructor
  · rintro ⟨_, _, rfl, hloaded | hduplicated, ⟨target, rfl⟩, hhere⟩
    · obtain ⟨index, earlier, rfl⟩ := after_eq_loaded.1 hloaded
      exact ⟨index, [], target, earlier, .inl rfl, rfl, hhere⟩
    · obtain ⟨_, rfl, hloaded⟩ := after_eq_duplicated.1 hduplicated
      obtain ⟨index, earlier, rfl⟩ := after_eq_loaded.1 hloaded
      exact ⟨index, [.simple .dup], target, earlier, .inr rfl, rfl, hhere⟩
  · rintro ⟨index, _, target, earlier, rfl | rfl, rfl, hhere⟩
    · have hloaded := (after_eq_loaded (e := e)).2 ⟨index, earlier, rfl⟩
      exact ⟨_, _, rfl, .inl hloaded, ⟨target, rfl⟩, hhere⟩
    · have hloaded := (after_eq_loaded (e := e)).2 ⟨index, earlier, rfl⟩
      exact ⟨_, _, rfl, .inr (after_eq_duplicated.2 ⟨_, rfl, hloaded⟩), ⟨target, rfl⟩, hhere⟩

theorem after_eq_pushedIndex : notNull.stateAfter e seen = .pushedIndex id ↔
    ∃ push earlier, seen = push :: earlier ∧ notNull.stateAfter e earlier = .tested id ∧
      push.intConstant?.isSome = true :=
  notNull.stateAfter_eq_iff (by nofun) fun _ _ _ => step_eq_pushedIndex

theorem finds : Filter.notNull.Finds e fun _ => Filter.notNull.Word := by
  intro seen id
  refine (notNull.askedAfter_eq_iff (by nofun) fun _ _ _ => step_asks).trans ?_
  constructor
  · rintro ⟨insn, _, rfl, ⟨htested, hreports⟩ | ⟨hpushed, hcall⟩⟩
    · obtain ⟨index, copy, target, earlier, hcopy, rfl, hhere⟩ := after_eq_tested.1 htested
      rcases reports_iff.1 hreports with ⟨exception, hexception, rfl⟩ |
        ⟨op, name, descriptor, onInterface, hname, rfl⟩
      · exact ⟨_, _, _, earlier, .nullException index hcopy target hexception, rfl, hhere⟩
      · exact ⟨_, _, _, earlier,
          .nullHelper index hcopy target hname op descriptor onInterface, rfl, hhere⟩
    · obtain ⟨push, _, rfl, htested, hpush⟩ := after_eq_pushedIndex.1 hpushed
      obtain ⟨index, copy, target, earlier, hcopy, rfl, hhere⟩ := after_eq_tested.1 htested
      obtain ⟨op, owner, descriptor, onInterface, rfl⟩ := Instruction.isCallTo_any_iff.1 hcall
      exact ⟨_, _, _, earlier,
        .nullParameter index hcopy target hpush op owner descriptor onInterface, rfl, hhere⟩
  · rintro ⟨before, jump, after, earlier, hword, rfl, hhere⟩
    have htested {index : UInt16} {copy : List Instruction} {target : Label} (hcopy : Copies copy)
        (hhere : (e.registered (.jump .ifnonnull target ::
          ((.localVar .aload index :: copy).reverse ++ earlier))).jumpHere = some id) :=
      after_eq_tested.2 ⟨index, copy, target, earlier, hcopy, rfl, hhere⟩
    cases hword with
    | nullParameter index hcopy target hpush op owner descriptor onInterface =>
        exact ⟨_, _, rfl, .inr ⟨after_eq_pushedIndex.2 ⟨_, _, rfl, htested hcopy hhere, hpush⟩,
          Instruction.isCallTo_any_iff.2 ⟨op, owner, descriptor, onInterface, rfl⟩⟩⟩
    | nullException index hcopy target hexception =>
        exact ⟨_, _, rfl, .inl ⟨htested hcopy hhere,
          reports_iff.2 (.inl ⟨_, hexception, rfl⟩)⟩⟩
    | nullHelper index hcopy target hname op descriptor onInterface =>
        exact ⟨_, _, rfl, .inl ⟨htested hcopy hhere,
          reports_iff.2 (.inr ⟨op, _, descriptor, onInterface, hname, rfl⟩)⟩⟩

end NotNull

/-! ## Late initialization -/

namespace Lateinit

variable {state : State}

theorem readsField_iff : readsField insn = true ↔ ∃ op owner name descriptor,
    (op = .getfield ∨ op = .getstatic) ∧ insn = .field op owner name descriptor := by
  unfold readsField
  split <;> grind

theorem step_eq_read : (step state insn ledger).1 = .read ↔ readsField insn = true := by
  constructor
  · cases hhere : ledger.jumpHere <;> cases state <;> grind [step, fst_orRestart, restart]
  · rw [readsField_iff]
    rintro ⟨op, owner, name, descriptor, rfl | rfl, rfl⟩ <;> cases state <;> rfl

theorem step_eq_duplicated :
    (step state insn ledger).1 = .duplicated ↔ state = .read ∧ insn = .simple .dup := by
  rw [← Instruction.isSimple_iff]
  cases hhere : ledger.jumpHere <;> cases state <;> grind [step, fst_orRestart, restart]

theorem step_eq_tested : (step state insn ledger).1 = .tested id ↔
    (state = .read ∨ state = .duplicated) ∧ (∃ target, insn = .jump .ifnonnull target) ∧
      ledger.jumpHere = some id := by
  cases hhere : ledger.jumpHere <;> cases state <;>
    grind [step, fst_orRestart, restart, Instruction.isSimple_iff, Instruction.isJumpWith_iff]

theorem step_eq_named : (step state insn ledger).1 = .named id ↔
    state = .tested id ∧ insn.stringConstant?.isSome = true := by
  cases hhere : ledger.jumpHere <;> cases state <;> grind [step, fst_orRestart, restart]

theorem step_asks : (step state insn ledger).2 = .jump id ↔
    state = .named id ∧
      insn.isCallTo intrinsics "throwUninitializedPropertyAccessException" = true := by
  cases state <;> grind [step, snd_orRestart]

/-! The states along the pattern. -/

theorem after_eq_read : lateinit.stateAfter e seen = .read ↔ ∃ op owner name descriptor earlier,
    (op = .getfield ∨ op = .getstatic) ∧ seen = .field op owner name descriptor :: earlier := by
  refine (lateinit.stateAfter_eq_iff (by nofun) fun _ _ _ =>
    step_eq_read.trans readsField_iff).trans ?_
  constructor
  · rintro ⟨_, earlier, rfl, op, owner, name, descriptor, hop, rfl⟩
    exact ⟨op, owner, name, descriptor, earlier, hop, rfl⟩
  · rintro ⟨op, owner, name, descriptor, earlier, hop, rfl⟩
    exact ⟨_, earlier, rfl, op, owner, name, descriptor, hop, rfl⟩

theorem after_eq_duplicated : lateinit.stateAfter e seen = .duplicated ↔
    ∃ earlier, seen = .simple .dup :: earlier ∧ lateinit.stateAfter e earlier = .read :=
  lateinit.stateAfter_eq_iff_cons (by nofun) fun _ _ _ => step_eq_duplicated

theorem after_eq_tested : lateinit.stateAfter e seen = .tested id ↔
    ∃ op owner name descriptor copy target earlier, (op = .getfield ∨ op = .getstatic) ∧
      Copies copy ∧
      seen = .jump .ifnonnull target ::
        ((.field op owner name descriptor :: copy).reverse ++ earlier) ∧
      (e.registered seen).jumpHere = some id := by
  refine (lateinit.stateAfter_eq_iff (by nofun) fun _ _ _ => step_eq_tested).trans ?_
  constructor
  · rintro ⟨_, _, rfl, hread | hduplicated, ⟨target, rfl⟩, hhere⟩
    · obtain ⟨op, owner, name, descriptor, earlier, hop, rfl⟩ := after_eq_read.1 hread
      exact ⟨op, owner, name, descriptor, [], target, earlier, hop, .inl rfl, rfl, hhere⟩
    · obtain ⟨_, rfl, hread⟩ := after_eq_duplicated.1 hduplicated
      obtain ⟨op, owner, name, descriptor, earlier, hop, rfl⟩ := after_eq_read.1 hread
      exact ⟨op, owner, name, descriptor, [.simple .dup], target, earlier, hop, .inr rfl, rfl,
        hhere⟩
  · rintro ⟨op, owner, name, descriptor, _, target, earlier, hop, rfl | rfl, rfl, hhere⟩
    · have hread := (after_eq_read (e := e)).2 ⟨op, owner, name, descriptor, earlier, hop, rfl⟩
      exact ⟨_, _, rfl, .inl hread, ⟨target, rfl⟩, hhere⟩
    · have hread := (after_eq_read (e := e)).2 ⟨op, owner, name, descriptor, earlier, hop, rfl⟩
      exact ⟨_, _, rfl, .inr (after_eq_duplicated.2 ⟨_, rfl, hread⟩), ⟨target, rfl⟩, hhere⟩

theorem after_eq_named : lateinit.stateAfter e seen = .named id ↔
    ∃ push earlier, seen = push :: earlier ∧ lateinit.stateAfter e earlier = .tested id ∧
      push.stringConstant?.isSome = true :=
  lateinit.stateAfter_eq_iff (by nofun) fun _ _ _ => step_eq_named

theorem finds : Filter.lateinit.Finds e fun _ => Filter.lateinit.Word := by
  intro seen id
  refine (lateinit.askedAfter_eq_iff (by nofun) fun _ _ _ => step_asks).trans ?_
  constructor
  · rintro ⟨_, _, rfl, hnamed, hcall⟩
    obtain ⟨push, _, rfl, htested, hpush⟩ := after_eq_named.1 hnamed
    obtain ⟨read, owner, name, descriptor, copy, target, earlier, hread, hcopy, rfl, hhere⟩ :=
      after_eq_tested.1 htested
    obtain ⟨text, htext⟩ := Option.isSome_iff_exists.1 hpush
    obtain rfl := Instruction.stringConstant?_eq_some.1 htext
    obtain ⟨op, descriptor', onInterface, rfl⟩ := (Instruction.isCallTo_iff (by decide)).1 hcall
    exact ⟨_, _, _, earlier,
      .property hread owner name descriptor hcopy target text op descriptor' onInterface, rfl,
      hhere⟩
  · rintro ⟨before, jump, after, earlier, hword, rfl, hhere⟩
    cases hword with
    | property hread owner name descriptor hcopy target text op descriptor' onInterface =>
        have htested := after_eq_tested.2
          ⟨_, owner, name, descriptor, _, target, earlier, hread, hcopy, rfl, hhere⟩
        exact ⟨_, _, rfl, after_eq_named.2 ⟨_, _, rfl, htested, rfl⟩,
          (Instruction.isCallTo_iff (by decide)).2 ⟨op, descriptor', onInterface, rfl⟩⟩

end Lateinit

/-! ## Unsupported calls -/

namespace UnsupportedCall

variable {state : State}

theorem step_eq_loaded :
    (step state insn ledger).1 = .loaded ↔ ∃ index, insn = .localVar .aload index := by
  rw [← loadsReference_iff]
  constructor
  · cases hhere : ledger.jumpHere <;> cases state <;> grind [step, fst_orRestart, restart]
  · rw [loadsReference_iff]
    rintro ⟨index, rfl⟩
    cases state <;> rfl

theorem step_eq_tested : (step state insn ledger).1 = .tested id ↔
    state = .loaded ∧ (∃ target, insn = .jump .ifnull target) ∧ ledger.jumpHere = some id := by
  rw [← Instruction.isJumpWith_iff]
  cases hhere : ledger.jumpHere <;> cases state <;> grind [step, fst_orRestart, restart]

theorem step_eq_allocated : (step state insn ledger).1 = .allocated id ↔
    state = .tested id ∧ insn = .type .new "java/lang/UnsupportedOperationException" := by
  rw [← Instruction.isNew_iff]
  cases hhere : ledger.jumpHere <;> cases state <;> grind [step, fst_orRestart, restart]

theorem step_eq_duplicated : (step state insn ledger).1 = .duplicated id ↔
    state = .allocated id ∧ insn = .simple .dup := by
  rw [← Instruction.isSimple_iff]
  cases hhere : ledger.jumpHere <;> cases state <;> grind [step, fst_orRestart, restart]

theorem step_asks : (step state insn ledger).2 = .jump id ↔ state = .duplicated id ∧
    pushesTextFrom "Super calls with default arguments not supported" insn = true := by
  cases state <;> grind [step, snd_orRestart]

/-! The states along the pattern. -/

theorem after_eq_loaded : unsupportedCall.stateAfter e seen = .loaded ↔
    ∃ index earlier, seen = .localVar .aload index :: earlier := by
  refine (unsupportedCall.stateAfter_eq_iff (by nofun) fun _ _ _ => step_eq_loaded).trans ?_
  grind

theorem after_eq_tested : unsupportedCall.stateAfter e seen = .tested id ↔
    ∃ index target earlier, seen = .jump .ifnull target :: .localVar .aload index :: earlier ∧
      (e.registered seen).jumpHere = some id := by
  refine (unsupportedCall.stateAfter_eq_iff (by nofun) fun _ _ _ => step_eq_tested).trans ?_
  constructor
  · rintro ⟨_, _, rfl, hloaded, ⟨target, rfl⟩, hhere⟩
    obtain ⟨index, earlier, rfl⟩ := after_eq_loaded.1 hloaded
    exact ⟨index, target, earlier, rfl, hhere⟩
  · rintro ⟨index, target, earlier, rfl, hhere⟩
    exact ⟨_, _, rfl, after_eq_loaded.2 ⟨index, earlier, rfl⟩, ⟨target, rfl⟩, hhere⟩

theorem after_eq_allocated : unsupportedCall.stateAfter e seen = .allocated id ↔
    ∃ earlier, seen = .type .new "java/lang/UnsupportedOperationException" :: earlier ∧
      unsupportedCall.stateAfter e earlier = .tested id :=
  unsupportedCall.stateAfter_eq_iff_cons (by nofun) fun _ _ _ => step_eq_allocated

theorem after_eq_duplicated : unsupportedCall.stateAfter e seen = .duplicated id ↔
    ∃ earlier, seen = .simple .dup :: earlier ∧
      unsupportedCall.stateAfter e earlier = .allocated id :=
  unsupportedCall.stateAfter_eq_iff_cons (by nofun) fun _ _ _ => step_eq_duplicated

theorem finds : Filter.unsupportedCall.Finds e fun _ => Filter.unsupportedCall.Word := by
  intro seen id
  refine (unsupportedCall.askedAfter_eq_iff (by nofun) fun _ _ _ =>
    step_asks.trans (and_congr_right fun _ => pushesTextFrom_iff)).trans ?_
  constructor
  · rintro ⟨_, _, rfl, hduplicated, text, htext, rfl⟩
    obtain ⟨_, rfl, hallocated⟩ := after_eq_duplicated.1 hduplicated
    obtain ⟨_, rfl, htested⟩ := after_eq_allocated.1 hallocated
    obtain ⟨index, target, earlier, rfl, hhere⟩ := after_eq_tested.1 htested
    exact ⟨_, _, _, earlier, .superCall htext index target, rfl, hhere⟩
  · rintro ⟨before, jump, after, earlier, hword, rfl, hhere⟩
    cases hword with
    | superCall htext index target =>
        have htested := after_eq_tested.2 ⟨index, target, earlier, rfl, hhere⟩
        have hallocated := after_eq_allocated.2 ⟨_, rfl, htested⟩
        exact ⟨_, _, rfl, after_eq_duplicated.2 ⟨_, rfl, hallocated⟩, _, htext, rfl⟩

end UnsupportedCall

/-! ## Default arguments -/

namespace DefaultArgs

variable {state : State}

theorem step_eq_loaded :
    (step state insn ledger).1 = .loaded ↔ ∃ index, insn = .localVar .iload index := by
  rw [← Instruction.isSome_loadIndex? rfl]
  constructor
  · cases state <;> grind [step, restart]
  · rw [Instruction.isSome_loadIndex? rfl]
    rintro ⟨index, rfl⟩
    cases state <;> rfl

theorem step_eq_bit : (step state insn ledger).1 = .bit ↔
    state = .loaded ∧ insn.intConstant?.isSome = true := by
  cases state <;> grind [step, restart]

theorem step_eq_masked :
    (step state insn ledger).1 = .masked ↔ state = .bit ∧ insn = .simple .iand := by
  rw [← Instruction.isSimple_iff]
  cases state <;> grind [step, restart]

theorem step_asks : (step state insn ledger).2 = .jump id ↔ state = .masked ∧
    (∃ op target, (op = .ifeq ∨ op = .ifne) ∧ insn = .jump op target) ∧
      ledger.jumpHere = some id := by
  cases hhere : ledger.jumpHere <;> cases state <;>
    grind [step, restart, Action.jumpHere, Instruction.isJumpWith_iff]

/-! The states along the pattern. -/

theorem after_eq_loaded : defaultArgs.stateAfter e seen = .loaded ↔
    ∃ index earlier, seen = .localVar .iload index :: earlier := by
  refine (defaultArgs.stateAfter_eq_iff (by nofun) fun _ _ _ => step_eq_loaded).trans ?_
  grind

theorem after_eq_bit : defaultArgs.stateAfter e seen = .bit ↔
    ∃ push earlier, seen = push :: earlier ∧ defaultArgs.stateAfter e earlier = .loaded ∧
      push.intConstant?.isSome = true :=
  defaultArgs.stateAfter_eq_iff (by nofun) fun _ _ _ => step_eq_bit

theorem after_eq_masked : defaultArgs.stateAfter e seen = .masked ↔
    ∃ earlier, seen = .simple .iand :: earlier ∧ defaultArgs.stateAfter e earlier = .bit :=
  defaultArgs.stateAfter_eq_iff_cons (by nofun) fun _ _ _ => step_eq_masked

theorem finds : Filter.defaultArgs.Finds e fun _ => Filter.defaultArgs.Word := by
  intro seen id
  refine (defaultArgs.askedAfter_eq_iff (by nofun) fun _ _ _ => step_asks).trans ?_
  constructor
  · rintro ⟨_, _, rfl, hmasked, ⟨op, target, hop, rfl⟩, hhere⟩
    obtain ⟨_, rfl, hbit⟩ := after_eq_masked.1 hmasked
    obtain ⟨push, _, rfl, hloaded, hpush⟩ := after_eq_bit.1 hbit
    obtain ⟨index, earlier, rfl⟩ := after_eq_loaded.1 hloaded
    exact ⟨_, _, _, earlier, .omittedArgument hop hpush index target, rfl, hhere⟩
  · rintro ⟨before, jump, after, earlier, hword, rfl, hhere⟩
    cases hword with
    | omittedArgument hop hpush index target =>
        have hloaded := (after_eq_loaded (e := e)).2 ⟨index, earlier, rfl⟩
        have hbit := after_eq_bit.2 ⟨_, _, rfl, hloaded, hpush⟩
        exact ⟨_, _, rfl, after_eq_masked.2 ⟨_, rfl, hbit⟩, ⟨_, target, hop, rfl⟩, hhere⟩

end DefaultArgs

/-! ## Negations -/

namespace BooleanNegation

variable {state : State} {target stop : Label} {value : Int32}

theorem truthValue?_eq_some : truthValue? insn = some value ↔
    insn.intConstant? = some value ∧ (value = 0 ∨ value = 1) := by
  simp [truthValue?, Option.filter_eq_some_iff]

theorem places_iff : places target insn = true ↔ insn = .label target := by
  cases insn <;> simp [places]

theorem restart_eq_jumped : restart insn ledger = .jumped id target ↔
    (∃ op, (op = .ifeq ∨ op = .ifne) ∧ insn = .jump op target) ∧ ledger.jumpHere = some id := by
  unfold restart
  split
  · simp_all [and_comm]
  · simp_all [and_comm]
  · refine iff_of_false nofun ?_
    rintro ⟨⟨op, rfl | rfl, rfl⟩, hhere⟩ <;> simp_all

theorem restart_eq (insn : Instruction) (ledger : Ledger) :
    restart insn ledger = .idle ∨ ∃ id target, restart insn ledger = .jumped id target := by
  unfold restart
  split <;> simp

/-- The first jump continues no match. -/
theorem restart_of_continued {next : State} (h : continued? state insn = some next) :
    restart insn ledger = .idle := by
  refine (restart_eq insn ledger).resolve_right ?_
  rintro ⟨id, target, hrestart⟩
  obtain ⟨⟨op, hop, rfl⟩, -⟩ := restart_eq_jumped.1 hrestart
  rcases hop with rfl | rfl <;> cases state <;> cases h

theorem step_eq_iff {next : State} (hnext : next ≠ .idle) : (step state insn ledger).1 = next ↔
    continued? state insn = some next ∨ restart insn ledger = next := by
  -- An instruction that goes on is no first jump, and the label that ends a match is none either.
  have hidle {next : State} (h : continued? state insn = some next) :
      restart insn ledger = .idle :=
    restart_of_continued h
  have hlabel (placed : Label) : restart (.label placed) ledger = .idle := rfl
  have hlast (id : JumpId) (stop : Label) : continued? (.secondConst id stop) insn = none := rfl
  cases hcontinued : continued? state insn <;> cases state <;>
    grind [step, fst_orRestart, places_iff]

/-- The states after the first jump are reached by going on. -/
theorem step_eq_iff_continued {next : State} (hidle : next ≠ .idle)
    (hjumped : ∀ id target, next ≠ .jumped id target) :
    (step state insn ledger).1 = next ↔ continued? state insn = some next := by
  refine (step_eq_iff hidle).trans (or_iff_left ?_)
  rcases restart_eq insn ledger with hrestart | ⟨id, target, hrestart⟩
  · exact hrestart ▸ hidle.symm
  · exact hrestart ▸ (hjumped id target).symm

theorem continued?_eq_jumped : continued? state insn ≠ some (.jumped id target) := by
  unfold continued?
  split <;> grind [Option.map_eq_some_iff]

theorem continued?_eq_firstConst : continued? state insn = some (.firstConst id target value) ↔
    state = .jumped id target ∧ truthValue? insn = some value := by
  unfold continued?
  split <;> grind [Option.map_eq_some_iff]

theorem continued?_eq_skipped : continued? state insn = some (.skipped id target value stop) ↔
    state = .firstConst id target value ∧ insn = .jump .goto stop := by
  unfold continued?
  split <;> grind [Option.map_eq_some_iff]

theorem continued?_eq_atTarget : continued? state insn = some (.atTarget id value stop) ↔
    ∃ target, state = .skipped id target value stop ∧ insn = .label target := by
  unfold continued?
  split <;> grind [Option.map_eq_some_iff]

theorem continued?_eq_secondConst : continued? state insn = some (.secondConst id stop) ↔
    ∃ value, state = .atTarget id value stop ∧ truthValue? insn = some (1 - value) := by
  unfold continued?
  split <;> grind [Option.map_eq_some_iff]

/-! The states along the pattern. -/

theorem after_eq_jumped : booleanNegation.stateAfter e seen = .jumped id target ↔
    ∃ op earlier, (op = .ifeq ∨ op = .ifne) ∧ seen = .jump op target :: earlier ∧
      (e.registered seen).jumpHere = some id := by
  refine (booleanNegation.stateAfter_eq_iff (by nofun) fun _ _ _ => (step_eq_iff (by nofun)).trans
    ((or_iff_right continued?_eq_jumped).trans restart_eq_jumped)).trans ?_
  constructor
  · rintro ⟨_, earlier, rfl, ⟨op, hop, rfl⟩, hhere⟩
    exact ⟨op, earlier, hop, rfl, hhere⟩
  · rintro ⟨op, earlier, hop, rfl, hhere⟩
    exact ⟨_, earlier, rfl, ⟨op, hop, rfl⟩, hhere⟩

theorem after_eq_firstConst : booleanNegation.stateAfter e seen = .firstConst id target value ↔
    ∃ push earlier, seen = push :: earlier ∧
      booleanNegation.stateAfter e earlier = .jumped id target ∧ truthValue? push = some value :=
  booleanNegation.stateAfter_eq_iff (by nofun) fun _ _ _ =>
    (step_eq_iff_continued (by nofun) (by nofun)).trans continued?_eq_firstConst

theorem after_eq_skipped : booleanNegation.stateAfter e seen = .skipped id target value stop ↔
    ∃ earlier, seen = .jump .goto stop :: earlier ∧
      booleanNegation.stateAfter e earlier = .firstConst id target value :=
  booleanNegation.stateAfter_eq_iff_cons (by nofun) fun _ _ _ =>
    (step_eq_iff_continued (by nofun) (by nofun)).trans continued?_eq_skipped

theorem after_eq_atTarget : booleanNegation.stateAfter e seen = .atTarget id value stop ↔
    ∃ target earlier, seen = .label target :: earlier ∧
      booleanNegation.stateAfter e earlier = .skipped id target value stop := by
  refine (booleanNegation.stateAfter_eq_iff (by nofun) fun _ _ _ =>
    (step_eq_iff_continued (by nofun) (by nofun)).trans continued?_eq_atTarget).trans ?_
  constructor
  · rintro ⟨_, earlier, rfl, target, hbefore, rfl⟩
    exact ⟨target, earlier, rfl, hbefore⟩
  · rintro ⟨target, earlier, rfl, hbefore⟩
    exact ⟨_, earlier, rfl, target, hbefore, rfl⟩

theorem after_eq_secondConst : booleanNegation.stateAfter e seen = .secondConst id stop ↔
    ∃ push earlier, seen = push :: earlier ∧ ∃ value,
      booleanNegation.stateAfter e earlier = .atTarget id value stop ∧
        truthValue? push = some (1 - value) :=
  booleanNegation.stateAfter_eq_iff (by nofun) fun _ _ _ =>
    (step_eq_iff_continued (by nofun) (by nofun)).trans continued?_eq_secondConst

theorem step_asks : (step state insn ledger).2 = .jump id ↔
    ∃ stop, state = .secondConst id stop ∧ insn = .label stop := by
  cases state <;> grind [step, snd_orRestart, places_iff]

theorem finds : Filter.booleanNegation.Finds e fun _ => Filter.booleanNegation.Word := by
  intro seen id
  refine (booleanNegation.askedAfter_eq_iff (by nofun) fun _ _ _ => step_asks).trans ?_
  constructor
  · rintro ⟨_, _, rfl, stop, hsecond, rfl⟩
    obtain ⟨second, _, rfl, value, htarget, hother⟩ := after_eq_secondConst.1 hsecond
    obtain ⟨target, _, rfl, hskipped⟩ := after_eq_atTarget.1 htarget
    obtain ⟨_, rfl, hpushed⟩ := after_eq_skipped.1 hskipped
    obtain ⟨first, _, rfl, hjumped, hvalue⟩ := after_eq_firstConst.1 hpushed
    obtain ⟨op, earlier, hop, rfl, hhere⟩ := after_eq_jumped.1 hjumped
    obtain ⟨hfirst, hvalue⟩ := truthValue?_eq_some.1 hvalue
    obtain ⟨hsecond, -⟩ := truthValue?_eq_some.1 hother
    exact ⟨_, _, _, earlier, .negation hop hvalue hfirst hsecond target stop, rfl, hhere⟩
  · rintro ⟨before, jump, after, earlier, hword, rfl, hhere⟩
    cases hword with
    | negation hop hvalue hfirst hsecond target stop =>
        have hother : truthValue? _ = some (1 - _) := truthValue?_eq_some.2 ⟨hsecond, by
          rcases hvalue with rfl | rfl <;> decide⟩
        refine ⟨_, _, rfl, stop, after_eq_secondConst.2 ⟨_, _, rfl, _, ?_, hother⟩, rfl⟩
        refine after_eq_atTarget.2 ⟨target, _, rfl, after_eq_skipped.2 ⟨_, rfl, ?_⟩⟩
        refine after_eq_firstConst.2 ⟨_, _, rfl, ?_, truthValue?_eq_some.2 ⟨hfirst, hvalue⟩⟩
        exact after_eq_jumped.2 ⟨_, earlier, hop, rfl, hhere⟩

end BooleanNegation
end Noise

/-! ## Scans -/

/-- The filters whose patterns do not begin anew inside themselves. -/
def Filter.guards : List Filter :=
  [.booleanNegation, .notNull, .defaultArgs, .unsupportedCall, .lateinit]

theorem Filter.finds_words {filter : Filter} (h : filter ∈ guards) {e : Enumeration} :
    filter.Finds e fun _ => filter.Word := by
  cases filter with
  | booleanNegation => exact BooleanNegation.finds
  | notNull => exact NotNull.finds
  | defaultArgs => exact DefaultArgs.finds
  | unsupportedCall => exact UnsupportedCall.finds
  | lateinit => exact Lateinit.finds
  | _ => exact absurd h (by decide)

theorem Filter.mem_ofJumps {filter : Filter} (h : filter ∈ guards) : filter ∈ ofJumps := by
  revert filter
  decide

namespace Scan

/-- A single guard retracts the jumps in the words of its pattern, and nothing else: no partial
match before a word hides it. -/
theorem retracted_iff_word {filter : Filter} (hfilter : filter ∈ Filter.guards) (e : Enumeration)
    (code : List Instruction) :
    (pass e code [Matcher.start filter.pattern]).bare = pass e code [] ∧
      (∀ marker ∈ (pass e code [Matcher.start filter.pattern]).markers, marker.retracted = false) ∧
      (∀ site ∈ (pass e code [Matcher.start filter.pattern]).switches,
        site.retracted = false ∧ site.defaultRetracted = false) ∧
      ∀ site ∈ (pass e code [Matcher.start filter.pattern]).jumps,
        (site.retracted = true ↔ ∃ pre before jump after post, filter.Word before jump after ∧
          code = pre ++ before ++ jump :: after ++ post ∧ site.index = (pre ++ before).length) :=
  ⟨bare_pass .., markers_of_jumps (Filter.mem_ofJumps hfilter),
    switches_of_jumps (Filter.mem_ofJumps hfilter),
    fun _ => (Filter.finds_words hfilter).retracted_iff⟩

/-- An assertion on the second parameter after a load of the first one. -/
def reloaded : List Instruction :=
  [.line 1, .localVar .aload 0, .localVar .aload 1, .simple .dup, .jump .ifnonnull ⟨0⟩,
   .type .new "java/lang/NullPointerException"]

theorem retracted_iff_word_reloaded : Filter.notNull ∈ Filter.guards ∧
    ∃ site ∈ (pass ⟨true, true⟩ reloaded [Matcher.start Filter.notNull.pattern]).jumps,
      site.retracted = true := by
  have hguard : Filter.notNull ∈ Filter.guards := by decide
  have hsite : ⟨4, 1, true⟩ ∈
      (pass ⟨true, true⟩ reloaded [Matcher.start Filter.notNull.pattern]).jumps := by
    decide
  have hword : Filter.notNull.Word [.localVar .aload 1, .simple .dup] (.jump .ifnonnull ⟨0⟩)
      [.type .new "java/lang/NullPointerException"] :=
    .nullException 1 (.inr rfl) ⟨0⟩ (.inr (.inr rfl))
  have hretracted := (retracted_iff_word hguard ⟨true, true⟩ reloaded).2.2.2 _ hsite
  exact ⟨hguard, _, hsite,
    hretracted.2 ⟨[.line 1, .localVar .aload 0], _, _, _, [], hword, rfl, rfl⟩⟩

end Scan

end BytecodeCoverage
