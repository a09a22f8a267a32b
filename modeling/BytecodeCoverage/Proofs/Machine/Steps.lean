import BytecodeCoverage.Proofs.Machine.Events
import BytecodeCoverage.Proofs.Machine.Heights

/-!
# Steps of a thread

A run is a sequence of steps, and a part of it can be looked at on its own.  `Path` lists the
moments from one to another; a run that is not cut short by its budget can be shortened by such a
part (`Path.run_eq`), and what the run passes begins with it (`Path.trace_eq`).

Code that neither jumps nor calls passes over its instructions from the first to the last.
`PassesAll` says what becomes of the operands, the local variables and the world on the way; it
mentions neither a body nor a position, so the code can stand anywhere.

**Main definitions.**
* `Moment`: a thread and the methods under way.
* `Moment.trace`, `Machine.traceOf`: the moments of a run, in order.
* `Moment.Amid`: a moment while the code of one frame runs.

**Results.**
* `Moment.countP_trace`: the moments of a run are those of the instructions that it executes.
* `Path.run_eq`: leaving out the first steps of a run.
* `PassesAll.path`: straight code inside a body.
-/

namespace BytecodeCoverage

namespace Machine

/-- A thread with the places of the methods under way, the innermost first. -/
structure Moment where
  places : List Nat
  thread : Thread

namespace Moment

/-- The frames, each with the place of its method, the innermost first. -/
def frames (x : Moment) : List (Nat × Frame) :=
  x.places.zip (x.thread.frame :: x.thread.callers)

/-- The moments of a run with at most `budget` instructions. The last one is that of the last
instruction, or the code has come to its end. -/
def trace : Nat → Moment → List Moment
  | 0, _ => []
  | budget + 1, x =>
      x ::
        match x.thread.frame.current? with
        | none => []
        | some insn =>
            match x.thread.step insn with
            | .running after => trace budget ⟨(x.thread.observe insn x.places).2, after⟩
            | .ended .. => []

/-- Every instruction that a run executes has its moment. -/
theorem countP_trace (budget : Nat) (x : Moment) :
    (x.trace budget).countP (fun y => y.thread.frame.current?.isSome) +
      (x.thread.run budget).budget = budget := by
  induction budget generalizing x with
  | zero => simpa [trace] using x.thread.budget_run_le 0
  | succ budget ih =>
      cases hinsn : x.thread.frame.current? with
      | none => simp [trace, Thread.run, hinsn]
      | some insn =>
          cases hstep : x.thread.step insn with
          | ended result world => simp [trace, Thread.run, hinsn, hstep, Nat.add_comm]
          | running after =>
              have hrest : _ + (after.run budget).budget = budget :=
                ih ⟨(x.thread.observe insn x.places).2, after⟩
              have hrun : x.thread.run (budget + 1) = after.run budget := by
                simp [Thread.run, hinsn, hstep]
              simp only [trace, hinsn, hstep, hrun, List.countP_cons, Option.isSome_some, if_true]
              omega

/-- An instruction leads from one moment to the next one. -/
structure Leads (x : Moment) (insn : Instruction) (y : Moment) : Prop where
  current : x.thread.frame.current? = some insn
  step : x.thread.step insn = .running y.thread
  places : (x.thread.observe insn x.places).2 = y.places

/-- A moment while the code of a body runs: the callers wait, the operands do not get above a
height, and the position is in a part of the code. -/
structure Amid (body : Body) (places : List Nat) (callers : List Frame) (height : Nat)
    (part : Nat → Prop) (x : Moment) : Prop where
  places : x.places = places
  callers : x.thread.callers = callers
  body : x.thread.frame.body = body
  height : x.thread.frame.stack.length ≤ height
  part : part x.thread.frame.pos

theorem Amid.mono {body : Body} {places : List Nat} {callers : List Frame} {height more : Nat}
    {part other : Nat → Prop} {x : Moment} (h : x.Amid body places callers height part)
    (hheight : height ≤ more) (hpart : ∀ pos, part pos → other pos) :
    x.Amid body places callers more other :=
  { h with height := Nat.le_trans h.height hheight, part := hpart _ h.part }

end Moment

/-- The moments from one to another, which itself is not listed. -/
inductive Path : List Moment → Moment → Moment → Prop
  | nil (x : Moment) : Path [] x x
  | cons {x y z : Moment} {insn : Instruction} {xs : List Moment} :
      x.Leads insn y → Path xs y z → Path (x :: xs) x z

namespace Path

variable {x y z : Moment} {xs ys : List Moment}

theorem single {insn : Instruction} (h : x.Leads insn y) : Path [x] x y :=
  .cons h (.nil y)

theorem append (h₁ : Path xs x y) (h₂ : Path ys y z) : Path (xs ++ ys) x z := by
  induction h₁ with
  | nil => exact h₂
  | cons hfirst _ ih => exact .cons hfirst (ih h₂)

/-- A run that has the budget for its end has the budget for its first steps. -/
theorem run_eq {budget : Nat} (h : Path xs x y)
    (hlimit : (x.thread.run budget).result ≠ .error .stepLimit) :
    xs.length ≤ budget ∧ x.thread.run budget = y.thread.run (budget - xs.length) := by
  induction h generalizing budget with
  | nil => simp
  | @cons x y z insn xs hfirst _ ih =>
      cases budget with
      | zero => simp [Thread.run, hfirst.current] at hlimit
      | succ budget =>
          have hrun : x.thread.run (budget + 1) = y.thread.run budget := by
            simp [Thread.run, hfirst.current, hfirst.step]
          obtain ⟨hn, heq⟩ := ih (hrun ▸ hlimit)
          refine ⟨Nat.succ_le_succ hn, ?_⟩
          rw [hrun, heq, List.length_cons, Nat.add_sub_add_right]

/-- The moments of a run begin with those of a path, as far as the budget goes. -/
theorem trace_eq (h : Path xs x y) (budget : Nat) :
    x.trace budget = xs.take budget ++ y.trace (budget - xs.length) := by
  induction h generalizing budget with
  | nil => simp
  | @cons x y z insn xs hfirst _ ih =>
      cases budget with
      | zero => simp [Moment.trace]
      | succ budget =>
          simp only [Moment.trace, hfirst.current, hfirst.step, hfirst.places, List.take_succ_cons,
            List.length_cons, Nat.add_sub_add_right, List.cons_append]
          rw [← ih budget]

end Path

/-! ## Straight code -/

/-- What an instruction works on, apart from its place in the code. -/
structure Store where
  stack : List Value
  locals : List Value
  world : World

/-- A frame at a position of a body. -/
def Store.frame (σ : Store) (body : Body) (pos : Nat) : Frame :=
  { body, pos, stack := σ.stack, locals := σ.locals }

/-- A thread at a position of a body. -/
def Store.thread (σ : Store) (body : Body) (pos : Nat) (callers : List Frame) : Thread :=
  { frame := σ.frame body pos, callers, world := σ.world }

/-- An instruction takes one store to another and goes on with the next instruction, wherever it
stands. -/
def Passes (insn : Instruction) (σ τ : Store) : Prop :=
  ∀ (body : Body) (pos : Nat),
    insn.execute (σ.frame body pos) σ.world = .ok (.next (τ.frame body pos), τ.world)

/-- Instructions one after the other, none of which jumps, calls or returns. -/
inductive PassesAll : List Instruction → Store → Store → Prop
  | nil (σ : Store) : PassesAll [] σ σ
  | cons {insn : Instruction} {rest : List Instruction} {σ τ υ : Store} :
      Passes insn σ τ → PassesAll rest τ υ → PassesAll (insn :: rest) σ υ

/-- The height of the operands behind an instruction is known. -/
theorem Passes.length_stack {insn : Instruction} {σ τ : Store} (h : Passes insn σ τ)
    (body : Body) : (τ.stack.length : Int) = σ.stack.length + insn.effect := by
  have hensures := insn.execute_ensures (σ.frame body 0) σ.world
  rw [h body 0] at hensures
  exact hensures _ rfl

/-- An instruction that goes on with the next one leaves the methods under way alone. -/
theorem Thread.places_observe_next {t : Thread} {insn : Instruction} {g : Frame} {w : World}
    (h : insn.execute t.frame t.world = .ok (.next g, w)) (places : List Nat) :
    (t.observe insn places).2 = places := by
  simp only [observe, h]

/-- So does one that jumps. -/
theorem Thread.places_observe_jump {t : Thread} {insn : Instruction} {g : Frame} {w : World}
    {target : Label} (h : insn.execute t.frame t.world = .ok (.jump g target, w))
    (places : List Nat) : (t.observe insn places).2 = places := by
  simp only [observe, h]

namespace PassesAll

theorem eq_of_nil {σ τ : Store} (h : PassesAll [] σ τ) : σ = τ := by
  cases h
  rfl

theorem append {code rest : List Instruction} {σ τ υ : Store} (h₁ : PassesAll code σ τ)
    (h₂ : PassesAll rest τ υ) : PassesAll (code ++ rest) σ υ := by
  induction h₁ with
  | nil => exact h₂
  | cons hinsn _ ih => exact .cons hinsn (ih h₂)

/-- Straight code in a body is run through from its first position to the one behind it. -/
theorem path {code rest : List Instruction} {σ τ : Store} (h : PassesAll code σ τ)
    (body : Body) (pos : Nat) (places : List Nat) (callers : List Frame)
    (hcode : body.code.drop pos = code ++ rest) :
    ∃ xs, Path xs ⟨places, σ.thread body pos callers⟩
        ⟨places, τ.thread body (pos + code.length) callers⟩ ∧
      ∀ x ∈ xs, x.Amid body places callers (σ.stack.length + Instruction.peak code)
        fun at' => pos ≤ at' ∧ at' < pos + code.length := by
  induction h generalizing pos with
  | nil σ => exact ⟨[], .nil _, List.forall_mem_nil _⟩
  | @cons insn code σ τ υ hinsn _ ih =>
      have hcurrent : body.code[pos]? = some insn := by
        rw [← List.head?_drop, hcode]
        rfl
      have hrest : body.code.drop (pos + 1) = code ++ rest := by
        rw [← List.tail_drop, hcode]
        rfl
      have hfirst : Moment.Leads ⟨places, σ.thread body pos callers⟩ insn
          ⟨places, τ.thread body (pos + 1) callers⟩ := by
        refine ⟨hcurrent, ?_, Thread.places_observe_next (hinsn body pos) places⟩
        simp only [Thread.step, Store.thread, hinsn body pos]
        rfl
      obtain ⟨xs, hpath, hxs⟩ := ih (pos + 1) hrest
      have hheight := hinsn.length_stack body
      rw [List.length_cons, Nat.add_comm code.length 1, ← Nat.add_assoc]
      refine ⟨_ :: xs, .cons hfirst hpath, List.forall_mem_cons.2 ⟨?_, fun x hx => ?_⟩⟩
      · exact ⟨rfl, rfl, rfl, Nat.le_add_right _ _, Nat.le_refl _, by
          show pos < pos + 1 + code.length
          omega⟩
      · refine (hxs x hx).mono ?_ fun at' hat => ⟨by omega, hat.2⟩
        simp only [Instruction.peak]
        omega

end PassesAll

/-! ## The moments of calls -/

/-- The moments of running a method to its end. -/
def callTrace (m : Machine) (name descriptor : String) (args : List Value) : List Moment :=
  match m.world.code name descriptor, m.world.cls.place? name descriptor with
  | .ok body, some place =>
      Moment.trace m.budget ⟨[place], { frame := .enter body args, world := m.world }⟩
  | _, _ => []

/-- The moments of running the class initializer, if there is one and it has not been started. -/
def startTrace (m : Machine) : List Moment :=
  if m.initialized then []
  else
    match m.world.cls.method? Method.initializerName "()V" with
    | some _ => { m with initialized := true }.callTrace Method.initializerName "()V" []
    | none => []

/-- The moments of a call. -/
def invokeTrace (m : Machine) (c : Call) : List Moment :=
  m.startTrace ++
    match m.startClass with
    | (.ok (), m) => m.callTrace c.name c.descriptor (c.args.map .int)
    | (.error _, _) => []

/-- The moments of calls one after the other. Once the budget is used up there are none. -/
def traceOf (m : Machine) : List Call → List Moment
  | [] => []
  | c :: rest => m.invokeTrace c ++ (m.invoke c.name c.descriptor c.args).2.traceOf rest

end Machine

end BytecodeCoverage
