import BytecodeCoverage.Proofs.Code.Respelled
import BytecodeCoverage.Proofs.Machine.Events
import BytecodeCoverage.Proofs.Machine.Unaware

/-!
# Running respelled code

An instruction looks neither at the body it stands in nor at the methods of the class, so it does
the same in a frame of another body and in a world of another class with the same name.  Two
spellings of a class therefore run in step, one instruction at a time.

**Main definitions.**
* `Machine.Frame.within`, `Machine.World.serving`: another body, another class.
* `Machine.Thread.Respelled`: threads of two spellings of a class.

**Results.**
* `Machine.execute_within`: executing an instruction.
* `Machine.Thread.Respelled.step`, `Machine.Thread.Respelled.run`: one step, and a run.
* `Machine.Respelled.invokeAll`: calls one after the other.
-/

namespace BytecodeCoverage

namespace Machine

/-- The frame in another body. -/
def Frame.within (f : Frame) (body : Body) : Frame :=
  { f with body }

/-- The world of another class. -/
def World.serving (w : World) (cls : ClassFile) : World :=
  { w with cls }

/-- The outcome in a frame of another body. -/
def Outcome.within (body : Body) : Outcome → Outcome
  | .next f => .next (f.within body)
  | .jump f target => .jump (f.within body) target
  | .call f name descriptor args => .call (f.within body) name descriptor args
  | .leave result => .leave result

/-- Executions that differ in the body and the class only. -/
def Carried (body : Body) (cls : ClassFile) : Executed → Executed → Prop :=
  Alike fun r r' => r' = (r.1.within body, r.2.serving cls)

section Carrying

variable {body : Body} {cls : ClassFile} (f : Frame) (w : World)

theorem pop_within : Alike (fun p p' => p' = (p.1, p.2.within body)) f.pop (f.within body).pop := by
  obtain ⟨_, pos, stack, locals⟩ := f
  cases stack with
  | nil => exact .error _
  | cons v rest => exact .ok rfl

theorem popInt_within :
    Alike (fun p p' => p' = (p.1, p.2.within body)) f.popInt (f.within body).popInt := by
  refine (pop_within f).bind ?_
  rintro ⟨v, g⟩ _ rfl
  cases v with
  | int n => exact .ok rfl
  | _ => exact .error _

theorem popIndex_within :
    Alike (fun p p' => p' = (p.1, p.2.within body)) f.popIndex (f.within body).popIndex := by
  refine (popInt_within f).bind ?_
  rintro ⟨n, g⟩ _ rfl
  by_cases hn : n < 0
  · simp only [hn, if_true]
    exact .error _
  · simp only [hn, if_false]
    exact .ok rfl

theorem drop_within (n : Nat) :
    Alike (fun g g' => g' = g.within body) (f.drop n) ((f.within body).drop n) := by
  unfold Frame.drop Frame.within
  by_cases hn : n ≤ f.stack.length
  · simp only [hn, if_true]
    exact .ok rfl
  · simp only [hn, if_false]
    exact .error _

theorem popArgs_within (n : Nat) :
    Alike (fun p p' => p' = (p.1, p.2.within body)) (f.popArgs n) ((f.within body).popArgs n) := by
  unfold Frame.popArgs Frame.within
  by_cases hn : n ≤ f.stack.length
  · simp only [hn, if_true]
    exact .ok rfl
  · simp only [hn, if_false]
    exact .error _

theorem load_within (index : UInt16) :
    Alike (fun v v' => v = v') (f.load index) ((f.within body).load index) := by
  show Alike _ (f.load index) (f.load index)
  cases f.load index with
  | error e => exact .error e
  | ok v => exact .ok rfl

theorem store_within (index : UInt16) (v : Value) :
    Alike (fun g g' => g' = g.within body) (f.store index v) ((f.within body).store index v) := by
  unfold Frame.store Frame.within
  by_cases hindex : index.toNat < f.locals.length
  · simp only [hindex, if_true]
    exact .ok rfl
  · simp only [hindex, if_false]
    exact .error _

theorem element_serving (array : Value) (index : Nat) :
    Alike (fun n n' => n = n') (w.element array index) ((w.serving cls).element array index) := by
  show Alike _ (w.element array index) (w.element array index)
  cases w.element array index with
  | error e => exact .error e
  | ok n => exact .ok rfl

theorem setElement_serving (array : Value) (index : Nat) (n : Int32) :
    Alike (fun u u' => u' = u.serving cls) (w.setElement array index n)
      ((w.serving cls).setElement array index n) := by
  have hdone (done : Bool) (r : Registry) :
      Alike (fun u u' => u' = u.serving cls)
        (if done then .ok { w with registry := r } else .error MachineFault.beyondEnd)
        (if done then .ok { w.serving cls with registry := r } else .error .beyondEnd) := by
    cases done with
    | true => exact .ok rfl
    | false => exact .error _
  cases array with
  | hits className => exact hdone _ _
  | mask className =>
      unfold World.setElement
      by_cases hn : n = 0
      · simp only [if_pos hn]
        show Alike _ (if index < (w.registry.tracker.mask className).length then _ else _)
          (if index < (w.registry.tracker.mask className).length then _ else _)
        by_cases hindex : index < (w.registry.tracker.mask className).length
        · rw [if_pos hindex, if_pos hindex]
          exact .ok rfl
        · rw [if_neg hindex, if_neg hindex]
          exact .error _
      · simp only [if_neg hn]
        exact hdone _ _
  | _ => exact .error _

theorem branch_within (op : Opcode) :
    Alike (fun p p' => p' = (p.1, p.2.within body)) (branch op f) (branch op (f.within body)) := by
  unfold branch
  cases test? op with
  | some test =>
      refine (popInt_within f).bind ?_
      rintro ⟨a, g⟩ _ rfl
      exact .ok rfl
  | none =>
      cases comparison? op with
      | some compare =>
          refine (popInt_within f).bind ?_
          rintro ⟨b, g⟩ _ rfl
          refine (popInt_within g).bind ?_
          rintro ⟨a, g⟩ _ rfl
          exact .ok rfl
      | none =>
          cases op <;> try exact .error _
          case goto => exact .ok rfl
          case ifnull | ifnonnull =>
            refine (pop_within f).bind ?_
            rintro ⟨v, g⟩ _ rfl
            exact .ok rfl
          case ifAcmpeq | ifAcmpne =>
            refine (pop_within f).bind ?_
            rintro ⟨b, g⟩ _ rfl
            refine (pop_within g).bind ?_
            rintro ⟨a, g⟩ _ rfl
            exact .ok rfl

theorem executeSimple_within (op : Opcode) :
    Carried body cls (executeSimple op f w) (executeSimple op (f.within body) (w.serving cls)) := by
  cases op <;> try exact .error _
  case nop | aconstNull | returnVoid => exact .ok rfl
  case ineg =>
    refine (popInt_within f).bind ?_
    rintro ⟨n, g⟩ _ rfl
    exact .ok rfl
  case dup =>
    obtain ⟨_, pos, stack, locals⟩ := f
    cases stack with
    | nil => exact .error _
    | cons v rest => exact .ok rfl
  case dup2 =>
    obtain ⟨_, pos, stack, locals⟩ := f
    match stack with
    | [] | [_] => exact .error _
    | v :: v' :: rest => exact .ok rfl
  case pop =>
    refine (pop_within f).bind ?_
    rintro ⟨v, g⟩ _ rfl
    exact .ok rfl
  case pop2 =>
    refine (pop_within f).bind ?_
    rintro ⟨v, g⟩ _ rfl
    refine (pop_within g).bind ?_
    rintro ⟨v, g⟩ _ rfl
    exact .ok rfl
  case iaload | baload =>
    refine (popIndex_within f).bind ?_
    rintro ⟨index, g⟩ _ rfl
    refine (pop_within g).bind ?_
    rintro ⟨v, g⟩ _ rfl
    refine (element_serving w v index).bind ?_
    rintro n _ rfl
    exact .ok rfl
  case iastore | bastore =>
    refine (popInt_within f).bind ?_
    rintro ⟨n, g⟩ _ rfl
    refine (popIndex_within g).bind ?_
    rintro ⟨index, g⟩ _ rfl
    refine (pop_within g).bind ?_
    rintro ⟨v, g⟩ _ rfl
    refine (setElement_serving w v index n).bind ?_
    rintro u _ rfl
    exact .ok rfl
  case ireturn | areturn =>
    refine (pop_within f).bind ?_
    rintro ⟨v, g⟩ _ rfl
    exact .ok rfl

theorem executeOpcode_within (op : Opcode) :
    Carried body cls (executeOpcode op f w) (executeOpcode op (f.within body) (w.serving cls)) := by
  unfold executeOpcode
  cases op.intConstant with
  | some n => exact .ok rfl
  | none =>
      cases binary? op with
      | none => exact executeSimple_within f w op
      | some operation =>
          refine (popInt_within f).bind ?_
          rintro ⟨b, g⟩ _ rfl
          refine (popInt_within g).bind ?_
          rintro ⟨a, g⟩ _ rfl
          dsimp only
          cases operation a b with
          | error e => exact .error e
          | ok n => exact .ok rfl

theorem executeConstant_within (constant : Constant) :
    Carried body cls (executeConstant constant f w)
      (executeConstant constant (f.within body) (w.serving cls)) := by
  cases constant <;> try exact .error _
  case int n | string s => exact .ok rfl
  case dynamic name descriptor bootstrap arguments =>
    simp only [executeConstant]
    split
    · split
      · exact .ok rfl
      · exact .error _
    · exact .error _

theorem executeVariable_within (op : Opcode) (index : UInt16) :
    Carried body cls (executeVariable op index f w)
      (executeVariable op index (f.within body) (w.serving cls)) := by
  cases op <;> try exact .error _
  case iload | aload =>
    refine (load_within f index).bind ?_
    rintro v _ rfl
    exact .ok rfl
  case istore | astore =>
    refine (pop_within f).bind ?_
    rintro ⟨v, g⟩ _ rfl
    refine (store_within g index v).bind ?_
    rintro g _ rfl
    exact .ok rfl

theorem executeType_within (op : Opcode) :
    Carried body cls (executeType op f w) (executeType op (f.within body) (w.serving cls)) := by
  cases op <;> try exact .error _
  case new | checkcast => exact .ok rfl
  case instanceof =>
    refine (pop_within f).bind ?_
    rintro ⟨v, g⟩ _ rfl
    exact .ok rfl

theorem executeField_within (op : Opcode) (key : String) :
    Carried body cls (executeField op key f w)
      (executeField op key (f.within body) (w.serving cls)) := by
  cases op <;> try exact .error _
  case getstatic => exact .ok rfl
  case putstatic =>
    refine (pop_within f).bind ?_
    rintro ⟨v, g⟩ _ rfl
    exact .ok rfl

theorem executeEntry_within (name : String) :
    Carried body cls (executeEntry name f w)
      (executeEntry name (f.within body) (w.serving cls)) := by
  refine (pop_within f).bind ?_
  rintro ⟨v, g⟩ _ rfl
  cases v with
  | text className =>
      dsimp only
      split
      · exact .ok rfl
      · split
        · exact .ok rfl
        · exact .error _
  | _ => exact .error _

theorem executeHash_within :
    Carried body cls (executeHash f w) (executeHash (f.within body) (w.serving cls)) := by
  refine (pop_within f).bind ?_
  rintro ⟨v, g⟩ _ rfl
  cases v with
  | text s => exact .ok rfl
  | _ => exact .error _

theorem executeEquals_within :
    Carried body cls (executeEquals f w) (executeEquals (f.within body) (w.serving cls)) := by
  refine (pop_within f).bind ?_
  rintro ⟨v, g⟩ _ rfl
  refine (pop_within g).bind ?_
  rintro ⟨u, e⟩ _ rfl
  cases u with
  | null => exact .error _
  | text a => cases v <;> exact .ok rfl
  | _ => exact .ok rfl

theorem executeCall_within (hname : cls.name = w.cls.name) (op : Opcode)
    (owner name descriptor : String) :
    Carried body cls (executeCall op owner name descriptor f w)
      (executeCall op owner name descriptor (f.within body) (w.serving cls)) := by
  have hcls : (w.serving cls).cls.name = w.cls.name := hname
  unfold executeCall
  rw [hcls]
  split_ifs
  · exact executeEntry_within f w name
  · exact executeHash_within f w
  · exact executeEquals_within f w
  · cases parameterCount descriptor with
    | error e => exact .error e
    | ok n =>
        refine (drop_within f (n + 1)).bind ?_
        rintro g _ rfl
        exact .ok rfl
  · cases parameterCount descriptor with
    | error e => exact .error e
    | ok n =>
        refine (popArgs_within f n).bind ?_
        rintro ⟨args, g⟩ _ rfl
        exact .ok rfl
  · exact .error _

/-- An instruction does the same in a frame of another body and in a world of another class with
the same name. -/
theorem execute_within (hname : cls.name = w.cls.name) (insn : Instruction) :
    Carried body cls (insn.execute f w) (insn.execute (f.within body) (w.serving cls)) := by
  cases insn with
  | label placed | line number | int op operand => exact .ok rfl
  | simple op => exact executeOpcode_within f w op
  | localVar op index => exact executeVariable_within f w op index
  | iinc index delta =>
      refine (load_within f index).bind ?_
      rintro v _ rfl
      cases v with
      | int n =>
          refine (store_within f index _).bind ?_
          rintro g _ rfl
          exact .ok rfl
      | _ => exact .error _
  | ldc constant => exact executeConstant_within f w constant
  | type op descriptor => exact executeType_within f w op
  | field op owner name descriptor => exact executeField_within f w op _
  | method op owner name descriptor onInterface =>
      exact executeCall_within f w hname op owner name descriptor
  | jump op target =>
      refine (branch_within f op).bind ?_
      rintro ⟨taken, g⟩ _ rfl
      cases taken <;> exact .ok rfl
  | tableSwitch low high otherwise targets | lookupSwitch otherwise keys targets =>
      refine (popInt_within f).bind ?_
      rintro ⟨key, g⟩ _ rfl
      exact .ok rfl

end Carrying

/-! ## Threads -/

/-- A frame of a respelled body. -/
structure Frame.Respelled (f f' : Frame) : Prop where
  body : f.body.Respelled f'.body
  same : f' = f.within f'.body

/-- A world of a respelled class. -/
structure World.Respelled (w w' : World) : Prop where
  cls : w.cls.Respelled w'.cls
  same : w' = w.serving w'.cls

/-- Threads of two spellings of a class. -/
structure Thread.Respelled (t t' : Thread) : Prop where
  frame : t.frame.Respelled t'.frame
  callers : List.Forall₂ Frame.Respelled t.callers t'.callers
  world : t.world.Respelled t'.world

/-- What comes of corresponding steps. -/
inductive Progress.Respelled : Progress → Progress → Prop
  | running {t t' : Thread} : t.Respelled t' → Respelled (.running t) (.running t')
  | ended {w w' : World} (result : Except MachineFault (Option Value)) :
      w.Respelled w' → Respelled (.ended result w) (.ended result w')

/-- The frame after an instruction, in both spellings. -/
theorem Frame.Respelled.of_within {f f' g : Frame} (h : f.Respelled f') (hbody : g.body = f.body) :
    g.Respelled (g.within f'.body) where
  body := hbody ▸ h.body
  same := rfl

/-- A method with code has it in both spellings. -/
theorem World.Respelled.code {w w' : World} (h : w.Respelled w') (name descriptor : String) :
    Alike Body.Respelled (w.code name descriptor) (w'.code name descriptor) := by
  have hmethod := h.cls.method?_rel name descriptor
  unfold World.code
  generalize w.cls.method? name descriptor = found at hmethod
  generalize w'.cls.method? name descriptor = found' at hmethod
  cases hmethod with
  | none => exact .error _
  | @some m m' hm =>
      have hbody := hm.body
      rw [Option.bind_some, Option.bind_some]
      generalize m.body = body at hbody
      generalize m'.body = body' at hbody
      cases hbody with
      | none => exact .error _
      | some hbody => exact .ok hbody

/-- Executing an instruction leaves the body of the frame and the class of the world alone. -/
theorem eq_within_of_execute {insn : Instruction} {f : Frame} {w u : World} {o : Outcome}
    (h : insn.execute f w = .ok (o, u)) : o = o.within f.body ∧ u = u.serving w.cls := by
  have hsame : Carried f.body w.cls (insn.execute f w) (insn.execute f w) :=
    execute_within f w rfl insn
  rw [h] at hsame
  cases hsame with
  | ok heq => exact Prod.mk.inj heq

namespace Thread.Respelled

variable {t t' : Thread} {insn insn' : Instruction}

/-- The instruction that is next, in both spellings. -/
theorem current (h : t.Respelled t') :
    Option.Rel Instruction.Respelled t.frame.current? t'.frame.current? := by
  have hpos : t'.frame.pos = t.frame.pos := by rw [h.frame.same]; rfl
  have hcode := h.frame.body.code
  rw [Frame.current?, Frame.current?, hpos]
  generalize t.frame.pos = pos
  generalize t.frame.body.code = code at hcode
  generalize t'.frame.body.code = code' at hcode
  induction hcode generalizing pos with
  | nil => exact .none
  | cons hinsn _ ih =>
      cases pos with
      | zero => exact .some hinsn
      | succ pos => exact ih pos

/-- Going on after an instruction, in both spellings. -/
theorem resume (h : t.Respelled t') {u : World} {o : Outcome} (ho : o = o.within t.frame.body)
    (hu : u = u.serving t.world.cls) :
    Progress.Respelled (t.resume u o)
      (t'.resume (u.serving t'.world.cls) (o.within t'.frame.body)) := by
  have hworld : u.Respelled (u.serving t'.world.cls) :=
    ⟨by rw [hu]; exact h.world.cls, rfl⟩
  have hlink {g : Frame} (hg : g = g.within t.frame.body) : g.Respelled (g.within t'.frame.body) :=
    h.frame.of_within ((congrArg Frame.body hg).trans rfl)
  cases o with
  | next g =>
      have hg := hlink (Outcome.next.inj ho)
      exact .running ⟨⟨hg.body, rfl⟩, h.callers, hworld⟩
  | jump g target =>
      have hg := hlink (Outcome.jump.inj ho).1
      simp only [Thread.resume, Outcome.within, hg.body.position?_eq target]
      cases g.body.position? target with
      | none => exact .ended _ hworld
      | some pos => exact .running ⟨⟨hg.body, rfl⟩, h.callers, hworld⟩
  | call g name descriptor args =>
      have hg := hlink (Outcome.call.inj ho).1
      have hcode := hworld.code name descriptor
      simp only [Thread.resume, Outcome.within]
      generalize u.code name descriptor = code at hcode
      generalize (u.serving t'.world.cls).code name descriptor = code' at hcode
      cases hcode with
      | error fault => exact .ended _ hworld
      | @ok body body' hbody =>
          refine .running ⟨⟨hbody, ?_⟩, .cons ⟨hg.body, rfl⟩ h.callers, hworld⟩
          simp only [Frame.enter, Frame.within, hbody.maxLocals]
  | leave result =>
      have hcallers := h.callers
      simp only [Thread.resume, Outcome.within]
      generalize t.callers = callers at hcallers
      generalize t'.callers = callers' at hcallers
      cases hcallers with
      | nil => exact .ended _ hworld
      | @cons f f' _ _ hf hrest =>
          refine .running ⟨?_, hrest, hworld⟩
          rw [hf.same]
          cases result <;> exact ⟨hf.body, rfl⟩

/-- One instruction, in both spellings. -/
theorem step (h : t.Respelled t') (hinsn : insn.Respelled insn') :
    Progress.Respelled (t.step insn) (t'.step insn') := by
  have hexecute : Carried t'.frame.body t'.world.cls (insn.execute t.frame t.world)
      (insn'.execute t'.frame t'.world) := by
    rw [hinsn.execute_eq, h.frame.same, h.world.same]
    exact execute_within t.frame t.world h.world.cls.name_eq insn
  unfold Thread.step
  cases hfirst : insn.execute t.frame t.world with
  | error fault =>
      rw [hfirst] at hexecute
      generalize insn'.execute t'.frame t'.world = r' at hexecute
      cases hexecute
      exact .ended _ h.world
  | ok r =>
      obtain ⟨ho, hu⟩ := eq_within_of_execute hfirst
      rw [hfirst] at hexecute
      generalize insn'.execute t'.frame t'.world = r' at hexecute
      cases hexecute with
      | ok heq =>
          subst heq
          exact h.resume ho hu

/-- A run, in both spellings. -/
theorem run (h : t.Respelled t') (budget : Nat) :
    (t'.run budget).result = (t.run budget).result ∧
      (t'.run budget).budget = (t.run budget).budget ∧
      (t.run budget).world.Respelled (t'.run budget).world := by
  induction budget generalizing t t' with
  | zero =>
      have hcurrent := h.current
      unfold Thread.run
      generalize t.frame.current? = found at hcurrent
      generalize t'.frame.current? = found' at hcurrent
      cases hcurrent <;> exact ⟨rfl, rfl, h.world⟩
  | succ budget ih =>
      have hcurrent := h.current
      unfold Thread.run
      generalize t.frame.current? = found at hcurrent
      generalize t'.frame.current? = found' at hcurrent
      cases hcurrent with
      | none => exact ⟨rfl, rfl, h.world⟩
      | @some insn insn' hinsn =>
          have hstep := h.step hinsn
          dsimp only
          generalize t.step insn = progress at hstep
          generalize t'.step insn' = progress' at hstep
          cases hstep with
          | running hnext => exact ih hnext
          | ended result hworld => exact ⟨rfl, rfl, hworld⟩

end Thread.Respelled

/-! ## Calls -/

/-- Machines of two spellings of a class. -/
structure Respelled (m m' : Machine) : Prop where
  world : m.world.Respelled m'.world
  budget : m'.budget = m.budget
  initialized : m'.initialized = m.initialized

theorem respelled_start {cls cls' : ClassFile} (h : cls.Respelled cls') (registry : Registry)
    (keeper : Nat) : (start cls registry keeper).Respelled (start cls' registry keeper) where
  world := ⟨h, rfl⟩
  budget := rfl
  initialized := rfl

namespace Respelled

variable {m m' : Machine}

theorem call (h : m.Respelled m') (name descriptor : String) (args : List Value) :
    (m'.call name descriptor args).1 = (m.call name descriptor args).1 ∧
      (m.call name descriptor args).2.Respelled (m'.call name descriptor args).2 := by
  have hcode := h.world.code name descriptor
  unfold Machine.call
  generalize m.world.code name descriptor = code at hcode
  generalize m'.world.code name descriptor = code' at hcode
  cases hcode with
  | error fault => exact ⟨rfl, h⟩
  | @ok body body' hbody =>
      have hthread : Thread.Respelled { frame := .enter body args, world := m.world }
          { frame := .enter body' args, world := m'.world } := by
        refine ⟨⟨hbody, ?_⟩, .nil, h.world⟩
        simp only [Frame.enter, Frame.within, hbody.maxLocals]
      obtain ⟨hresult, hbudget, hworld⟩ := hthread.run m.budget
      rw [h.budget]
      exact ⟨hresult, hworld, hbudget, h.initialized⟩

theorem startClass (h : m.Respelled m') :
    m'.startClass.1 = m.startClass.1 ∧ m.startClass.2.Respelled m'.startClass.2 := by
  unfold Machine.startClass
  rw [h.initialized]
  cases m.initialized with
  | true => exact ⟨rfl, h⟩
  | false =>
      have hstarted : Machine.Respelled { m with initialized := true }
          { m' with initialized := true } := ⟨h.world, h.budget, rfl⟩
      have hmethod := h.world.cls.method?_rel Method.initializerName "()V"
      simp only [Bool.false_eq_true, if_false]
      generalize m.world.cls.method? Method.initializerName "()V" = found at hmethod
      generalize m'.world.cls.method? Method.initializerName "()V" = found' at hmethod
      cases hmethod with
      | none => exact ⟨rfl, hstarted⟩
      | some hm =>
          obtain ⟨hresult, hcalled⟩ := hstarted.call Method.initializerName "()V" []
          exact ⟨congrArg (Except.map fun _ => ()) hresult, hcalled⟩

theorem invoke (h : m.Respelled m') (name descriptor : String) (args : List Int32) :
    (m'.invoke name descriptor args).1 = (m.invoke name descriptor args).1 ∧
      (m.invoke name descriptor args).2.Respelled (m'.invoke name descriptor args).2 := by
  obtain ⟨hresult, hstarted⟩ := h.startClass
  unfold Machine.invoke
  generalize m.startClass = started at hresult hstarted
  generalize m'.startClass = started' at hresult hstarted
  obtain ⟨result, n⟩ := started
  obtain ⟨result', n'⟩ := started'
  dsimp only at hresult hstarted
  subst hresult
  cases result' with
  | error fault => exact ⟨rfl, hstarted⟩
  | ok =>
      obtain ⟨hcall, hcalled⟩ := hstarted.call name descriptor (args.map .int)
      exact ⟨congrArg (·.bind integerResult) hcall, hcalled⟩

/-- Calls one after the other give the same results and leave the same registry. -/
theorem invokeAll (h : m.Respelled m') (calls : List Call) :
    (m'.invokeAll calls).1 = (m.invokeAll calls).1 ∧
      (m'.invokeAll calls).2.world.registry = (m.invokeAll calls).2.world.registry := by
  induction calls generalizing m m' with
  | nil => exact ⟨rfl, by rw [Machine.invokeAll, Machine.invokeAll, h.world.same]; rfl⟩
  | cons c rest ih =>
      obtain ⟨hresult, hinvoked⟩ := h.invoke c.name c.descriptor c.args
      obtain ⟨hresults, hregistry⟩ := ih hinvoked
      simp only [Machine.invokeAll]
      exact ⟨by rw [hresult, hresults], hregistry⟩

end Respelled

end Machine

end BytecodeCoverage
