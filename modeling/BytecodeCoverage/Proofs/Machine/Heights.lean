import Mathlib.Tactic.SplitIfs
import BytecodeCoverage.Machine.Run

/-!
# The height of the operand stack

How much an instruction that goes on with the next one changes the height of the operand stack is
known from the instruction alone.  So it is known from straight code how high the stack gets on the
way through it.

No instruction fails because the machine's budget is used up; only a run does.

**Main definitions.**
* `Machine.Ensures`: what an operation ensures if it does not fail.
* `Instruction.effect`: what an instruction adds to the height of the stack.
* `Instruction.peak`: how much the stack grows at most within straight code.

**Results.**
* `Instruction.execute_ensures`: the height after an instruction.
* `Machine.Thread.budget_of_stepLimit`: a run that is cut short has used up its budget.
-/

namespace BytecodeCoverage

namespace Machine

/-- The operation has a result with the property, or it fails for a reason of its own. -/
def Ensures {α : Type} (R : α → Prop) : Except MachineFault α → Prop
  | .ok a => R a
  | .error fault => fault ≠ .stepLimit

theorem Ensures.bind {α β : Type} {R : α → Prop} {S : β → Prop} {x : Except MachineFault α}
    {g : α → Except MachineFault β} (hx : Ensures R x) (hg : ∀ a, R a → Ensures S (g a)) :
    Ensures S (x >>= g) := by
  cases x with
  | ok a => exact hg a hx
  | error fault => exact hx

theorem Ensures.mono {α : Type} {R S : α → Prop} {x : Except MachineFault α} (hx : Ensures R x)
    (h : ∀ a, R a → S a) : Ensures S x := by
  cases x with
  | ok a => exact h a hx
  | error fault => exact hx

/-! ## Operations on frames -/

section Operations

variable (f : Frame)

theorem pop_ensures : Ensures (fun r => r.2.stack.length + 1 = f.stack.length) f.pop := by
  unfold Frame.pop
  cases hstack : f.stack with
  | nil => exact nofun
  | cons v rest => exact (List.length_cons).symm

theorem popInt_ensures : Ensures (fun r => r.2.stack.length + 1 = f.stack.length) f.popInt := by
  refine (pop_ensures f).bind ?_
  rintro ⟨v, g⟩ (hg : g.stack.length + 1 = f.stack.length)
  cases v with
  | int n => exact hg
  | _ => exact nofun

theorem popIndex_ensures : Ensures (fun r => r.2.stack.length + 1 = f.stack.length) f.popIndex := by
  refine (popInt_ensures f).bind ?_
  rintro ⟨n, g⟩ (hg : g.stack.length + 1 = f.stack.length)
  dsimp only
  split
  · exact nofun
  · exact hg

theorem drop_ensures (n : Nat) :
    Ensures (fun g => g.stack.length + n = f.stack.length) (f.drop n) := by
  unfold Frame.drop
  split
  · simp only [Ensures, List.length_drop]
    omega
  · exact nofun

theorem popArgs_ensures (n : Nat) :
    Ensures (fun r => r.2.stack.length + n = f.stack.length) (f.popArgs n) := by
  unfold Frame.popArgs
  split
  · simp only [Ensures, List.length_drop]
    omega
  · exact nofun

theorem load_ensures (index : UInt16) : Ensures (fun _ => True) (f.load index) := by
  unfold Frame.load
  split
  · trivial
  · exact nofun

theorem store_ensures (index : UInt16) (v : Value) :
    Ensures (fun g => g.stack = f.stack) (f.store index v) := by
  unfold Frame.store
  split
  · exact rfl
  · exact nofun

theorem element_ensures (w : World) (array : Value) (index : Nat) :
    Ensures (fun _ => True) (w.element array index) := by
  unfold World.element
  split
  · split
    · trivial
    · exact nofun
  · split
    · trivial
    · exact nofun
  · exact nofun

theorem setElement_ensures (w : World) (array : Value) (index : Nat) (n : Int32) :
    Ensures (fun _ => True) (w.setElement array index n) := by
  unfold World.setElement
  split
  · dsimp only
    split
    · trivial
    · exact nofun
  · split
    · split
      · trivial
      · exact nofun
    · dsimp only
      split
      · trivial
      · exact nofun
  · exact nofun

theorem parameterCount_ensures (descriptor : String) :
    Ensures (fun n => parameterCount descriptor = .ok n) (parameterCount descriptor) := by
  unfold parameterCount
  split
  · exact rfl
  · exact nofun

theorem unknown_ensures {α : Type} {R : α → Prop} (op : Opcode) :
    Ensures R (unknown op : Except MachineFault α) :=
  nofun

theorem binary?_ensures {op : Opcode} {operation : Int32 → Int32 → Except MachineFault Int32}
    (h : binary? op = some operation) (a b : Int32) : Ensures (fun _ => True) (operation a b) := by
  cases op <;> cases h <;> first | trivial | skip
  all_goals
    dsimp only
    split
    · exact nofun
    · trivial

end Operations

end Machine

/-! ## What instructions add -/

open Machine

/-- What an instruction without operands adds to the height of the operand stack. -/
def Opcode.effect (op : Opcode) : Int :=
  match op.intConstant, binary? op with
  | some _, _ => 1
  | none, some _ => -1
  | none, none =>
      match op with
      | .aconstNull | .dup => 1
      | .dup2 => 2
      | .pop | .iaload | .baload => -1
      | .pop2 => -2
      | .iastore | .bastore => -3
      | _ => 0

/-- What a jump adds to the height of the operand stack, whether it is taken or not. -/
def Opcode.jumpEffect (op : Opcode) : Int :=
  match test? op, comparison? op with
  | some _, _ => -1
  | none, some _ => -2
  | none, none =>
      match op with
      | .ifnull | .ifnonnull => -1
      | .ifAcmpeq | .ifAcmpne => -2
      | _ => 0

namespace Instruction

/-- What an instruction that goes on with the next one adds to the height of the operand stack.
Only the calls that the machine answers itself go on like this. -/
def effect : Instruction → Int
  | .label _ | .line _ | .iinc .. => 0
  | .simple op => op.effect
  | .int .. | .ldc _ => 1
  | .localVar op _ =>
      match op with
      | .iload | .aload => 1
      | _ => -1
  | .type op _ =>
      match op with
      | .new => 1
      | _ => 0
  | .field op .. =>
      match op with
      | .getstatic => 1
      | _ => -1
  | .method op owner name descriptor _ =>
      if owner == Entry.owner then 0
      else if op == .invokevirtual && owner == "java/lang/String" && name == "hashCode" then 0
      else if op == .invokevirtual && owner == "java/lang/String" && name == "equals" then -1
      else
        match parameterCount descriptor with
        | .ok n => -(n + 1)
        | .error _ => 0
  | .jump op _ => op.jumpEffect
  | .tableSwitch .. | .lookupSwitch .. => -1

end Instruction

namespace Machine

/-- Going on with the next instruction, the operand stack is so much higher. -/
def Adds (f : Frame) (effect : Int) (r : Outcome × World) : Prop :=
  ∀ g, r.1 = .next g → (g.stack.length : Int) = f.stack.length + effect

variable {f g : Frame} {w : World} {effect : Int}

theorem adds_next (h : (g.stack.length : Int) = f.stack.length + effect) :
    Adds f effect (.next g, w) := by
  rintro _ ⟨⟩
  exact h

theorem adds_leave (result : Option Value) : Adds f effect (.leave result, w) :=
  nofun

theorem adds_jump (target : Label) : Adds f effect (.jump g target, w) :=
  nofun

theorem adds_of (d : Int) (h : (g.stack.length : Int) = f.stack.length + d) (hd : d = effect) :
    Adds f effect (.next g, w) :=
  adds_next (hd ▸ h)

theorem executeSimple_ensures (op : Opcode) (f : Frame) (w : World) :
    Ensures (Adds f op.effect) (executeSimple op f w) := by
  cases op <;> try exact unknown_ensures _
  case athrow => exact nofun
  case nop => exact adds_of 0 (by simp) rfl
  case aconstNull => exact adds_of 1 (by simp [Frame.push]) rfl
  case ineg =>
    refine (popInt_ensures f).bind ?_
    rintro ⟨n, g⟩ (hg : g.stack.length + 1 = f.stack.length)
    exact adds_of 0 (by simp only [Frame.push, List.length_cons]; omega) rfl
  case dup =>
    simp only [executeSimple]
    split
    · exact adds_of 1 (by simp [Frame.push]) rfl
    · exact nofun
  case dup2 =>
    simp only [executeSimple]
    split
    · exact adds_of 2 (by simp [Frame.push]; omega) rfl
    · exact nofun
  case pop =>
    refine (pop_ensures f).bind ?_
    rintro ⟨v, g⟩ (hg : g.stack.length + 1 = f.stack.length)
    exact adds_of (-1) (by omega) rfl
  case pop2 =>
    refine (pop_ensures f).bind ?_
    rintro ⟨v, g⟩ (hg : g.stack.length + 1 = f.stack.length)
    refine (pop_ensures g).bind ?_
    rintro ⟨v, e⟩ (he : e.stack.length + 1 = g.stack.length)
    exact adds_of (-2) (by omega) rfl
  case iaload | baload =>
    refine (popIndex_ensures f).bind ?_
    rintro ⟨index, g⟩ (hg : g.stack.length + 1 = f.stack.length)
    refine (pop_ensures g).bind ?_
    rintro ⟨array, e⟩ (he : e.stack.length + 1 = g.stack.length)
    refine (element_ensures w array index).bind ?_
    rintro n -
    exact adds_of (-1) (by simp only [Frame.push, List.length_cons]; omega) rfl
  case iastore | bastore =>
    refine (popInt_ensures f).bind ?_
    rintro ⟨n, g⟩ (hg : g.stack.length + 1 = f.stack.length)
    refine (popIndex_ensures g).bind ?_
    rintro ⟨index, e⟩ (he : e.stack.length + 1 = g.stack.length)
    refine (pop_ensures e).bind ?_
    rintro ⟨array, d⟩ (hd : d.stack.length + 1 = e.stack.length)
    refine (setElement_ensures w array index n).bind ?_
    rintro u -
    exact adds_of (-3) (by omega) rfl
  case ireturn | areturn =>
    refine (pop_ensures f).bind ?_
    rintro ⟨v, g⟩ -
    exact adds_leave _
  case returnVoid => exact adds_leave _

theorem executeOpcode_ensures (op : Opcode) (f : Frame) (w : World) :
    Ensures (Adds f op.effect) (executeOpcode op f w) := by
  unfold executeOpcode
  cases hconstant : op.intConstant with
  | some n =>
      refine adds_next ?_
      simp [Opcode.effect, hconstant, Frame.push]
  | none =>
      cases hbinary : binary? op with
      | none => exact executeSimple_ensures op f w
      | some operation =>
          refine (popInt_ensures f).bind ?_
          rintro ⟨b, g⟩ (hg : g.stack.length + 1 = f.stack.length)
          refine (popInt_ensures g).bind ?_
          rintro ⟨a, e⟩ (he : e.stack.length + 1 = g.stack.length)
          refine (binary?_ensures hbinary a b).bind ?_
          rintro n -
          refine adds_next ?_
          simp only [Opcode.effect, hconstant, hbinary, Frame.push, List.length_cons]
          omega

theorem executeConstant_ensures (constant : Constant) (f : Frame) (w : World) :
    Ensures (Adds f 1) (executeConstant constant f w) := by
  unfold executeConstant
  split
  · exact adds_next (by simp [Frame.push])
  · exact adds_next (by simp [Frame.push])
  · split
    · split
      · exact adds_next (by simp [Frame.push])
      · simp [Ensures]
    · simp [Ensures]
  · simp [Ensures]

theorem executeEntry_ensures (name : String) (f : Frame) (w : World) :
    Ensures (Adds f 0) (executeEntry name f w) := by
  refine (pop_ensures f).bind ?_
  rintro ⟨v, g⟩ (hg : g.stack.length + 1 = f.stack.length)
  cases v with
  | text className =>
      dsimp only
      split
      · exact adds_next (by simp only [Frame.push, List.length_cons]; omega)
      · split
        · exact adds_next (by simp only [Frame.push, List.length_cons]; omega)
        · exact nofun
  | _ => exact nofun

theorem executeHash_ensures (f : Frame) (w : World) : Ensures (Adds f 0) (executeHash f w) := by
  refine (pop_ensures f).bind ?_
  rintro ⟨v, g⟩ (hg : g.stack.length + 1 = f.stack.length)
  cases v with
  | text s => exact adds_next (by simp only [Frame.push, List.length_cons]; omega)
  | _ => exact nofun

theorem executeEquals_ensures (f : Frame) (w : World) :
    Ensures (Adds f (-1)) (executeEquals f w) := by
  refine (pop_ensures f).bind ?_
  rintro ⟨v, g⟩ (hg : g.stack.length + 1 = f.stack.length)
  refine (pop_ensures g).bind ?_
  rintro ⟨u, e⟩ (he : e.stack.length + 1 = g.stack.length)
  have hpush (b : Bool) : Ensures (Adds f (-1)) (.ok (.next (e.push (.ofBool b)), w)) :=
    adds_next (by simp only [Frame.push, List.length_cons]; omega)
  cases u with
  | null => exact nofun
  | text a => cases v <;> exact hpush _
  | _ => exact hpush _

theorem executeVariable_ensures (op : Opcode) (index : UInt16) (f : Frame) (w : World) :
    Ensures (Adds f (Instruction.localVar op index).effect) (executeVariable op index f w) := by
  cases op <;> try exact unknown_ensures _
  case iload | aload =>
    refine (load_ensures f index).bind ?_
    rintro v -
    exact adds_of 1 (by simp [Frame.push]) rfl
  case istore | astore =>
    refine (pop_ensures f).bind ?_
    rintro ⟨v, g⟩ (hg : g.stack.length + 1 = f.stack.length)
    refine (store_ensures g index v).bind ?_
    intro e he
    exact adds_of (-1) (by rw [he]; omega) rfl

theorem executeType_ensures (op : Opcode) (descriptor : String) (f : Frame) (w : World) :
    Ensures (Adds f (Instruction.type op descriptor).effect) (executeType op f w) := by
  cases op <;> try exact unknown_ensures _
  case new => exact adds_of 1 (by simp [Frame.push]) rfl
  case checkcast => exact adds_of 0 (by simp) rfl
  case instanceof =>
    refine (pop_ensures f).bind ?_
    rintro ⟨v, g⟩ (hg : g.stack.length + 1 = f.stack.length)
    exact adds_of 0 (by simp only [Frame.push, List.length_cons]; omega) rfl

theorem executeField_ensures (op : Opcode) (owner name descriptor : String) (f : Frame)
    (w : World) :
    Ensures (Adds f (Instruction.field op owner name descriptor).effect)
      (executeField op (owner ++ "." ++ name) f w) := by
  cases op <;> try exact unknown_ensures _
  case getstatic => exact adds_of 1 (by simp [Frame.push]) rfl
  case putstatic =>
    refine (pop_ensures f).bind ?_
    rintro ⟨v, g⟩ (hg : g.stack.length + 1 = f.stack.length)
    exact adds_of (-1) (by omega) rfl

theorem executeCall_ensures (op : Opcode) (owner name descriptor : String) (onInterface : Bool)
    (f : Frame) (w : World) :
    Ensures (Adds f (Instruction.method op owner name descriptor onInterface).effect)
      (executeCall op owner name descriptor f w) := by
  simp only [executeCall, Instruction.effect]
  split_ifs
  · exact executeEntry_ensures name f w
  · exact executeHash_ensures f w
  · exact executeEquals_ensures f w
  · refine (parameterCount_ensures descriptor).bind ?_
    intro n hn
    refine (drop_ensures f (n + 1)).bind ?_
    intro g hg
    simp only [hn]
    exact adds_next (by omega)
  · refine (parameterCount_ensures descriptor).bind ?_
    intro n hn
    refine (popArgs_ensures f n).bind ?_
    rintro ⟨args, g⟩ -
    exact nofun
  · exact nofun

theorem branch_ensures (op : Opcode) (f : Frame) :
    Ensures (fun r => (r.2.stack.length : Int) = f.stack.length + op.jumpEffect) (branch op f) := by
  unfold branch Opcode.jumpEffect
  cases test? op with
  | some test =>
      refine (popInt_ensures f).bind ?_
      rintro ⟨a, g⟩ (hg : g.stack.length + 1 = f.stack.length)
      simp only [Ensures]
      omega
  | none =>
      cases comparison? op with
      | some compare =>
          refine (popInt_ensures f).bind ?_
          rintro ⟨b, g⟩ (hg : g.stack.length + 1 = f.stack.length)
          refine (popInt_ensures g).bind ?_
          rintro ⟨a, e⟩ (he : e.stack.length + 1 = g.stack.length)
          simp only [Ensures]
          omega
      | none =>
          cases op <;> try exact unknown_ensures _
          case goto => exact (Int.add_zero _).symm
          case ifnull | ifnonnull =>
            refine (pop_ensures f).bind ?_
            rintro ⟨v, g⟩ (hg : g.stack.length + 1 = f.stack.length)
            show (g.stack.length : Int) = f.stack.length + -1
            omega
          case ifAcmpeq | ifAcmpne =>
            refine (pop_ensures f).bind ?_
            rintro ⟨b, g⟩ (hg : g.stack.length + 1 = f.stack.length)
            refine (pop_ensures g).bind ?_
            rintro ⟨a, e⟩ (he : e.stack.length + 1 = g.stack.length)
            show (e.stack.length : Int) = f.stack.length + -2
            omega

end Machine

/-- An instruction that goes on with the next one changes the height as it says, and it does not
fail because the budget is used up. -/
theorem Instruction.execute_ensures (insn : Instruction) (f : Frame) (w : World) :
    Ensures (Adds f insn.effect) (insn.execute f w) := by
  cases insn with
  | label | line => exact adds_of 0 (by simp) rfl
  | simple op => exact executeOpcode_ensures op f w
  | int => exact adds_of 1 (by simp [Frame.push]) rfl
  | localVar op index => exact executeVariable_ensures op index f w
  | iinc index delta =>
      refine (load_ensures f index).bind ?_
      rintro v -
      cases v with
      | int n =>
          refine (store_ensures f index _).bind ?_
          intro g hg
          exact adds_of 0 (by simp [hg]) rfl
      | _ => exact nofun
  | ldc constant => exact executeConstant_ensures constant f w
  | type op descriptor => exact executeType_ensures op descriptor f w
  | field op owner name descriptor => exact executeField_ensures op owner name descriptor f w
  | method op owner name descriptor onInterface =>
      exact executeCall_ensures op owner name descriptor onInterface f w
  | jump op target =>
      refine (branch_ensures op f).bind ?_
      rintro ⟨taken, g⟩ hg
      cases taken with
      | true => exact adds_jump target
      | false => exact adds_next hg
  | tableSwitch | lookupSwitch =>
      refine (popInt_ensures f).bind ?_
      rintro ⟨key, g⟩ -
      exact adds_jump _

/-- How much higher the operand stack gets at most before some instruction of straight code. -/
def Instruction.peak : List Instruction → Nat
  | [] => 0
  | insn :: rest => (insn.effect + peak rest).toNat

namespace Machine.Thread

/-- No step fails because the budget is used up. -/
theorem step_ne_stepLimit {t : Thread} {insn : Instruction}
    {result : Except MachineFault (Option Value)} {w : World}
    (h : t.step insn = .ended result w) : result ≠ .error .stepLimit := by
  have hexecute := insn.execute_ensures t.frame t.world
  unfold step at h
  cases hresult : insn.execute t.frame t.world with
  | error fault =>
      rw [hresult] at h hexecute
      rintro rfl
      cases h
      exact hexecute rfl
  | ok r =>
      obtain ⟨o, u⟩ := r
      rw [hresult] at h
      rintro rfl
      cases o with
      | next g => cases h
      | jump g target =>
          simp only [resume] at h
          split at h <;> cases h
      | call g name descriptor args =>
          simp only [resume] at h
          split at h
          · cases h
          · rename_i fault hcode
            cases h
            simp only [World.code] at hcode
            split at hcode <;> cases hcode
      | leave value =>
          simp only [resume] at h
          split at h <;> cases h

/-- A run that is cut short has used up its budget. -/
theorem budget_of_stepLimit {budget : Nat} {t : Thread}
    (h : (t.run budget).result = .error .stepLimit) : (t.run budget).budget = 0 := by
  induction budget generalizing t with
  | zero => exact Nat.le_zero.1 (t.budget_run_le 0)
  | succ budget ih =>
      unfold run at h ⊢
      cases hinsn : t.frame.current? with
      | none =>
          rw [hinsn] at h
          cases h
      | some insn =>
          rw [hinsn] at h
          dsimp only at h ⊢
          cases hstep : t.step insn with
          | running after =>
              rw [hstep] at h
              exact ih h
          | ended result world =>
              rw [hstep] at h
              exact absurd h (step_ne_stepLimit hstep)

end Machine.Thread

end BytecodeCoverage
