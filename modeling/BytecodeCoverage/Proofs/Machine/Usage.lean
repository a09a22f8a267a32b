import BytecodeCoverage.Machine.Run
import BytecodeCoverage.Proofs.Registry.Usage

/-!
# What running code does to the registry

Whatever code runs, it uses the registry only by requests and writes.

**Main definitions.**
* `Machine.Executed.Uses`: executions that use the registry.

**Results.**
* `Instruction.uses_execute`: one instruction.
* `Machine.used_invoke`: a call.
-/

namespace BytecodeCoverage

namespace Machine

/-- If the instruction succeeds, it has used the registry. -/
def Executed.Uses (x : Executed) (r : Registry) : Prop :=
  ∀ outcome w, x = .ok (outcome, w) → r.Used w.registry

namespace Executed

variable {r : Registry} {α : Type}

theorem uses_error (fault : MachineFault) : Uses (.error fault) r :=
  nofun

theorem uses_ok {outcome : Outcome} {w : World} (h : r.Used w.registry) :
    Uses (.ok (outcome, w)) r := by
  rintro _ _ ⟨⟩
  exact h

theorem uses_same {outcome : Outcome} {w : World} : Uses (.ok (outcome, w)) w.registry :=
  uses_ok (.refl _)

theorem uses_bind {x : Except MachineFault α} {next : α → Executed}
    (h : ∀ a, x = .ok a → Uses (next a) r) : Uses (x >>= next) r := by
  cases x with
  | error fault => exact uses_error fault
  | ok a => exact h a rfl

end Executed

open Executed

/-! ## Instructions -/

variable (f : Frame) (w : World)

theorem used_hits (className : String) : w.registry.Used (w.hits className).2.registry :=
  w.registry.used_requestCached _

theorem used_mask (className : String) : w.registry.Used (w.mask className).2.registry :=
  w.registry.used_requestMask className

theorem used_setElement {w w' : World} {array : Value} {index : Nat} {n : Int32}
    (h : w.setElement array index n = .ok w') : w.registry.Used w'.registry := by
  unfold World.setElement at h
  split at h
  · dsimp only at h
    split at h
    · cases h
      exact w.registry.used_store _ _ _
    · cases h
  · split at h
    · split at h
      · cases h
        exact .refl _
      · cases h
    · dsimp only at h
      split at h
      · cases h
        exact w.registry.used_traceSlot _ _
      · cases h
  · cases h

theorem uses_executeSimple (op : Opcode) : (executeSimple op f w).Uses w.registry := by
  unfold executeSimple
  split
  · exact uses_same
  · exact uses_same
  · exact uses_bind fun _ _ => uses_same
  · split
    · exact uses_same
    · exact uses_error _
  · split
    · exact uses_same
    · exact uses_error _
  · exact uses_bind fun _ _ => uses_same
  · exact uses_bind fun _ _ => uses_bind fun _ _ => uses_same
  · exact uses_bind fun _ _ => uses_bind fun _ _ => uses_bind fun _ _ => uses_same
  · exact uses_bind fun _ _ => uses_bind fun _ _ => uses_bind fun _ _ => uses_same
  · exact uses_bind fun _ _ => uses_bind fun _ _ => uses_bind fun _ _ => uses_bind fun _ h =>
      uses_ok (used_setElement h)
  · exact uses_bind fun _ _ => uses_bind fun _ _ => uses_bind fun _ _ => uses_bind fun _ h =>
      uses_ok (used_setElement h)
  · exact uses_bind fun _ _ => uses_same
  · exact uses_bind fun _ _ => uses_same
  · exact uses_same
  · exact uses_error _
  · exact uses_error _

theorem uses_executeOpcode (op : Opcode) : (executeOpcode op f w).Uses w.registry := by
  unfold executeOpcode
  split
  · exact uses_same
  · exact uses_bind fun _ _ => uses_bind fun _ _ => uses_bind fun _ _ => uses_same
  · exact uses_executeSimple f w op

theorem uses_executeConstant (constant : Constant) :
    (executeConstant constant f w).Uses w.registry := by
  unfold executeConstant
  split
  · exact uses_same
  · exact uses_same
  · split
    · split
      · exact uses_ok (used_hits w _)
      · exact uses_error _
    · exact uses_error _
  · exact uses_error _

theorem uses_executeVariable (op : Opcode) (index : UInt16) :
    (executeVariable op index f w).Uses w.registry := by
  unfold executeVariable
  split
  · exact uses_bind fun _ _ => uses_same
  · exact uses_bind fun _ _ => uses_same
  · exact uses_bind fun _ _ => uses_bind fun _ _ => uses_same
  · exact uses_bind fun _ _ => uses_bind fun _ _ => uses_same
  · exact uses_error _

theorem uses_executeType (op : Opcode) : (executeType op f w).Uses w.registry := by
  unfold executeType
  split
  · exact uses_same
  · exact uses_same
  · exact uses_bind fun _ _ => uses_same
  · exact uses_error _

theorem uses_executeField (op : Opcode) (key : String) :
    (executeField op key f w).Uses w.registry := by
  unfold executeField
  split
  · exact uses_same
  · exact uses_bind fun _ _ => uses_ok (.refl _)
  · exact uses_error _

theorem uses_executeEntry (name : String) : (executeEntry name f w).Uses w.registry := by
  refine uses_bind fun popped _ => ?_
  split
  · split
    · exact uses_ok (used_hits w _)
    · split
      · exact uses_ok (used_mask w _)
      · exact uses_error _
  · exact uses_error _

theorem uses_executeHash : (executeHash f w).Uses w.registry := by
  refine uses_bind fun popped _ => ?_
  split
  · exact uses_same
  · exact uses_error _

theorem uses_executeEquals : (executeEquals f w).Uses w.registry := by
  refine uses_bind fun ⟨other, g⟩ _ => uses_bind fun ⟨receiver, g⟩ _ => ?_
  dsimp only
  split
  · exact uses_same
  · exact uses_error _
  · exact uses_same

theorem uses_executeCall (op : Opcode) (owner name descriptor : String) :
    (executeCall op owner name descriptor f w).Uses w.registry := by
  unfold executeCall
  split
  · exact uses_executeEntry f w name
  · split
    · exact uses_executeHash f w
    · split
      · exact uses_executeEquals f w
      · split
        · exact uses_bind fun _ _ => uses_bind fun _ _ => uses_same
        · split
          · exact uses_bind fun _ _ => uses_bind fun _ _ => uses_same
          · exact uses_error _

end Machine

open Machine Executed in
theorem Instruction.uses_execute (insn : Instruction) (f : Frame) (w : World) :
    (insn.execute f w).Uses w.registry := by
  cases insn with
  | label | line | int => exact uses_same
  | simple op => exact uses_executeOpcode f w op
  | localVar op index => exact uses_executeVariable f w op index
  | iinc index delta =>
      refine uses_bind fun v _ => ?_
      split
      · exact uses_bind fun _ _ => uses_same
      · exact uses_error _
  | ldc constant => exact uses_executeConstant f w constant
  | type op descriptor => exact uses_executeType f w op
  | field op owner name descriptor => exact uses_executeField f w op _
  | method op owner name descriptor => exact uses_executeCall f w op owner name descriptor
  | jump op target =>
      refine uses_bind fun r _ => ?_
      split
      split
      · exact uses_same
      · exact uses_same
  | tableSwitch | lookupSwitch => exact uses_bind fun _ _ => uses_same

namespace Machine

/-! ## Runs -/

/-- The registry after a step. -/
def Progress.registry : Progress → Registry
  | .running t => t.world.registry
  | .ended _ w => w.registry

namespace Thread

theorem used_step (t : Thread) (insn : Instruction) :
    t.world.registry.Used (t.step insn).registry := by
  unfold step
  cases hexecute : insn.execute t.frame t.world with
  | error fault => exact .refl _
  | ok r =>
      obtain ⟨outcome, w⟩ := r
      have hused := insn.uses_execute t.frame t.world outcome w hexecute
      dsimp only
      cases outcome with
      | next f => exact hused
      | jump f target =>
          simp only [resume]
          split <;> exact hused
      | call f name descriptor args =>
          simp only [resume]
          split <;> exact hused
      | leave result =>
          simp only [resume]
          split <;> exact hused

theorem used_run (budget : Nat) (t : Thread) :
    t.world.registry.Used (t.run budget).world.registry := by
  induction budget generalizing t with
  | zero =>
      unfold run
      cases t.frame.current? <;> exact .refl _
  | succ budget ih =>
      unfold run
      cases t.frame.current? with
      | none => exact .refl _
      | some insn =>
          have hstep := t.used_step insn
          dsimp only
          generalize t.step insn = progress at hstep ⊢
          cases progress with
          | running after => exact hstep.trans (ih after)
          | ended result w => exact hstep

end Thread

variable (m : Machine)

theorem used_call (name descriptor : String) (args : List Value) :
    m.world.registry.Used (m.call name descriptor args).2.world.registry := by
  unfold call
  cases m.world.code name descriptor with
  | ok body => exact Thread.used_run m.budget { frame := .enter body args, world := m.world }
  | error fault => exact .refl _

theorem used_startClass : m.world.registry.Used m.startClass.2.world.registry := by
  unfold startClass
  split
  · exact .refl _
  · dsimp only
    split
    · exact used_call { m with initialized := true } _ _ _
    · exact .refl _

theorem used_invoke (name descriptor : String) (args : List Int32) :
    m.world.registry.Used (m.invoke name descriptor args).2.world.registry := by
  have hstart := m.used_startClass
  unfold invoke
  generalize m.startClass = started at hstart ⊢
  obtain ⟨result, after⟩ := started
  cases result with
  | error fault => exact hstart
  | ok => exact hstart.trans (after.used_call name descriptor _)

end Machine

end BytecodeCoverage
