import BytecodeCoverage.Proofs.Probe.Machines
import BytecodeCoverage.Proofs.Probe.Sights

/-!
# What calls on corresponding machines show

Calls of a class and of its counterpart show the same, call by call.  Once the machine with probes
has used up its instructions it shows nothing more.

**Results.**
* `Machine.traceOf_of_budget`: a machine that has used up its instructions does nothing.
* `Pairing.Good.shows_call`, `Pairing.Good.shows_start`: running one method.
* `Pairing.Good.shows_traceOf`: calls one after the other.
-/

namespace BytecodeCoverage

open Machine

namespace Machine

variable {m : Machine} {name descriptor : String} {args : List Value}

/-! ## Machines that have used up their instructions -/

theorem callTrace_of_budget (h : m.budget = 0) : m.callTrace name descriptor args = [] := by
  unfold callTrace
  rw [h]
  split <;> rfl

theorem startTrace_of_budget (h : m.budget = 0) : m.startTrace = [] := by
  unfold startTrace
  split
  · rfl
  · split
    · exact callTrace_of_budget h
    · rfl

theorem invokeTrace_of_budget (h : m.budget = 0) (c : Call) : m.invokeTrace c = [] := by
  have hstart : m.startClass.2.budget = 0 := by
    have := m.countP_startEvents_le
    omega
  rw [invokeTrace, startTrace_of_budget h, List.nil_append]
  split
  · rename_i heq
    rw [heq] at hstart
    exact callTrace_of_budget hstart
  · rfl

/-- A machine that has used up its instructions does nothing. -/
theorem traceOf_of_budget (h : m.budget = 0) (calls : List Call) : m.traceOf calls = [] := by
  induction calls generalizing m with
  | nil => rfl
  | cons c rest ih =>
      have hrest : (m.invoke c.name c.descriptor c.args).2.budget = 0 := by
        have := m.countP_invokeEvents_le c
        omega
      rw [traceOf, invokeTrace_of_budget h, ih hrest, List.append_nil]

theorem budget_of_call (h : (m.call name descriptor args).1 = .error .stepLimit) :
    (m.call name descriptor args).2.budget = 0 := by
  unfold call at h ⊢
  cases hcode : m.world.code name descriptor with
  | ok body =>
      rw [hcode] at h
      exact Thread.budget_of_stepLimit h
  | error fault =>
      rw [hcode] at h
      obtain rfl : fault = .stepLimit := Except.error.inj h
      unfold World.code at hcode
      split at hcode <;> cases hcode

theorem budget_of_startClass (h : m.startClass.1 = .error .stepLimit) :
    m.startClass.2.budget = 0 := by
  unfold startClass at h ⊢
  split at h
  · cases h
  · rename_i hinitialized
    rw [if_neg hinitialized]
    dsimp only at h ⊢
    split at h
    · refine budget_of_call ?_
      generalize (call { m with initialized := true } Method.initializerName "()V" []).1 = r at h
      cases r with
      | ok value => cases h
      | error fault => exact congrArg Except.error (Except.error.inj h)
    · cases h

theorem integerResult_ne_stepLimit (value : Option Value) :
    integerResult value ≠ .error .stepLimit := by
  cases value with
  | none => simp [integerResult]
  | some v => cases v <;> simp [integerResult]

/-- A call that is cut short leaves no instructions. -/
theorem budget_of_invoke {c : Call}
    (h : (m.invoke c.name c.descriptor c.args).1 = .error .stepLimit) :
    (m.invoke c.name c.descriptor c.args).2.budget = 0 := by
  have hstart := m.budget_of_startClass
  unfold invoke at h ⊢
  generalize m.startClass = r at h hstart ⊢
  obtain ⟨result, m₁⟩ := r
  cases result with
  | error fault => exact hstart (congrArg Except.error (Except.error.inj h))
  | ok =>
      refine budget_of_call ?_
      dsimp only at h
      cases hcall : (m₁.call c.name c.descriptor (c.args.map .int)).1 with
      | error fault =>
          rw [hcall] at h
          exact congrArg Except.error (Except.error.inj h)
      | ok value =>
          rw [hcall] at h
          exact absurd h (integerResult_ne_stepLimit value)

end Machine

namespace Pairing.Good

variable {p : Pairing} (hp : p.Good) (m m' : Machine) {name descriptor : String}

include hp

/-- Running a method with code to its end. -/
theorem shows_call {place : Nat} {s : Sheet} (hplace : p.cls.place? name descriptor = some place)
    (hsheet : p.sheets place = some s)
    (hcode : (p.cls.method? name descriptor).bind Method.body = some s.weave.body)
    (hcode' : (p.cls'.method? name descriptor).bind Method.body = some s.body')
    (hworlds : p.Worlds m.world m'.world) (hbudget : m'.budget ≤ m.budget)
    (hready : s.fills = false → p.Ready m'.world) {args : List Value}
    (hargs : args.length ≤ s.weave.body.maxLocals.toNat) (hplain : ∀ v ∈ args, v.Plain) :
    p.Shows ((m'.call name descriptor args).1 = .error .stepLimit)
      (m.callTrace name descriptor args) (m'.callTrace name descriptor args) := by
  have hm : m.world.code name descriptor = .ok s.weave.body := by
    rw [World.code, hworlds.cls, hcode]
  have hm' : m'.world.code name descriptor = .ok s.body' := by
    rw [World.code, hworlds.cls', hcode']
  have htrace : m.callTrace name descriptor args =
      Moment.trace m.budget ⟨[place], { frame := .enter s.weave.body args, world := m.world }⟩ := by
    simp only [callTrace, hm, hworlds.cls, hplace]
  have htrace' : m'.callTrace name descriptor args =
      Moment.trace m'.budget ⟨[place], { frame := .enter s.body' args, world := m'.world }⟩ := by
    simp only [callTrace, hm', hworlds.cls', hp.place' name descriptor place hplace]
  have hcall' : (m'.call name descriptor args).1 =
      (Thread.run m'.budget { frame := .enter s.body' args, world := m'.world }).result := by
    simp only [Machine.call, hm']
  obtain ⟨xs, t', hrun, hthreads, -, hxs⟩ := hp.path_called hsheet hworlds hready
    (fun hfills => (hp.fills name descriptor place s hplace hsheet hfills).2) hargs hplain
  rw [htrace, htrace', hcall']
  exact hp.shows_path hrun hxs hbudget fun left hleft => hp.shows_threads hleft hthreads

/-- A moment of an initializer that was added shows nothing, and its frames are those of added
members. -/
theorem aside_initializer (hstrategy : p.style.counters.strategy = .field)
    (hnone : p.cls.method? Method.initializerName "()V" = none) {body : Body}
    (hbody : p.style.counters.initializer.body = some body) {x : Moment}
    (h : x.Amid body [p.cls.methods.length + 1] [] 1 (fun _ => True) ∨
      ∃ g : Frame, g.body = body ∧ g.stack = [] ∧ x.Amid p.style.counters.accessorBody
        [p.cls.methods.length, p.cls.methods.length + 1] [g] 2 fun _ => True) :
    p.sight'? x = none ∧ p.Backed [] x := by
  rcases h with hhere | ⟨g, hg, hstack, hthere⟩
  · refine ⟨Moment.sight?_eq_none hhere.places ?_, ?_, fun q f hf => ?_⟩
    · rw [hp.kept_of_outside (Nat.le_succ _)]
      exact List.not_mem_nil
    · rw [hhere.places, hhere.callers]
      rfl
    · rw [Moment.frames, hhere.places, hhere.callers] at hf
      obtain ⟨rfl, rfl⟩ := Prod.mk.inj (List.mem_singleton.1 hf)
      exact .inl (.initializer hstrategy hnone (hhere.body ▸ hbody) hhere.height)
  · refine ⟨Moment.sight?_eq_none hthere.places ?_, ?_, fun q f hf => ?_⟩
    · rw [hp.kept_of_outside (Nat.le_refl _)]
      exact List.not_mem_nil
    · rw [hthere.places, hthere.callers]
      rfl
    · rw [Moment.frames, hthere.places, hthere.callers] at hf
      rcases List.mem_cons.1 hf with heq | hf
      · obtain ⟨rfl, rfl⟩ := Prod.mk.inj heq
        exact .inl (.accessor hstrategy hthere.body hthere.height)
      · obtain ⟨rfl, rfl⟩ := Prod.mk.inj (List.mem_singleton.1 hf)
        exact .inl (.initializer hstrategy hnone (hg ▸ hbody)
          (hstack ▸ Nat.zero_le _))

/-- An initializer that was added shows nothing. -/
theorem shows_added (hstrategy : p.style.counters.strategy = .field)
    (hnone : p.cls.method? Method.initializerName "()V" = none)
    (hadded : p.cls'.method? Method.initializerName "()V" = some p.style.counters.initializer)
    {w : World} (hworlds : p.Worlds w m'.world) (cut : Prop) :
    p.Shows cut [] (m'.callTrace Method.initializerName "()V" []) := by
  obtain ⟨body, hbody, -⟩ := body_initializer p.style.counters
  have hcode : m'.world.code Method.initializerName "()V" = .ok body := by
    rw [World.code, hworlds.cls', hadded, Option.bind_some, hbody]
  have htrace : m'.callTrace Method.initializerName "()V" [] = Moment.trace m'.budget
      ⟨[p.cls.methods.length + 1], { frame := .enter body [], world := m'.world }⟩ := by
    simp only [callTrace, hcode, hworlds.cls', hp.initializerPlace hstrategy hnone]
  obtain ⟨xs, f, u', hrun, hframe, hstack, hinsn, -, hxs⟩ :=
    hp.path_initializer hstrategy hworlds hbody [p.cls.methods.length + 1]
  have hlast (left : Nat) : ∀ x ∈ Moment.trace left
      ⟨[p.cls.methods.length + 1], { frame := f, world := u' }⟩,
      x = ⟨[p.cls.methods.length + 1], { frame := f, world := u' }⟩ := by
    cases left with
    | zero => exact List.forall_mem_nil _
    | succ left =>
        simp [Moment.trace, hinsn, Thread.step, Instruction.execute, executeOpcode,
          Opcode.intConstant, binary?, executeSimple, Thread.resume]
  have hadded : ∀ x ∈ m'.callTrace Method.initializerName "()V" [],
      p.sight'? x = none ∧ p.Backed [] x := by
    rw [htrace, hrun.trace_eq, List.forall_mem_append]
    refine ⟨fun x hx => ?_, fun x hx => ?_⟩
    · exact hp.aside_initializer hstrategy hnone hbody (hxs x (List.mem_of_mem_take hx))
    · obtain rfl := hlast _ x hx
      exact hp.aside_initializer hstrategy hnone hbody
        (.inl ⟨rfl, rfl, hframe, by simp [hstack], trivial⟩)
  have hshows : p.Shows cut [] (m'.callTrace Method.initializerName "()V" [] ++ []) :=
    Shows.nil.aside (fun x hx => (hadded x hx).1) fun x hx => (hadded x hx).2
  rwa [List.append_nil] at hshows

/-! ## Calls -/

variable {m m'}

/-- Starting the class. -/
theorem shows_start (hm : p.Machines m m') :
    p.Shows (m'.startClass.1 = .error .stepLimit) m.startTrace m'.startTrace := by
  cases hinitialized : m.initialized with
  | true =>
      simp only [startTrace, hinitialized, hm.initialized.trans hinitialized, if_true]
      exact .nil
  | false =>
      have hinitialized' := hm.initialized.trans hinitialized
      cases hmethod : p.cls.method? Method.initializerName "()V" with
      | some method =>
          obtain ⟨place, s, hplace, hsheet, hcode, hcode', hfills⟩ := hp.started method hmethod
          obtain ⟨method', hmethod', -⟩ := Option.bind_eq_some_iff.1 hcode'
          have hcall := hp.shows_call { m with initialized := true }
            { m' with initialized := true } hplace hsheet hcode hcode' hm.worlds hm.budget
            (ready_of_unfilled hfills) (Nat.zero_le _) (List.forall_mem_nil _)
          simp only [startTrace, Machine.startClass, hinitialized, hinitialized',
            Bool.false_eq_true, if_false, hm.worlds.cls, hm.worlds.cls', hmethod, hmethod']
          exact hcall.imp fun hcut => by rw [hcut]; rfl
      | none =>
          have hunstarted := hp.unstarted hmethod
          by_cases hstrategy : p.style.counters.strategy = .field
          · rw [if_pos hstrategy] at hunstarted
            simp only [startTrace, hinitialized, hinitialized', Bool.false_eq_true, if_false,
              hm.worlds.cls, hm.worlds.cls', hmethod, hunstarted]
            exact hp.shows_added { m' with initialized := true } hstrategy hmethod hunstarted
              hm.worlds _
          · rw [if_neg hstrategy] at hunstarted
            simp only [startTrace, hinitialized, hinitialized', Bool.false_eq_true, if_false,
              hm.worlds.cls, hm.worlds.cls', hmethod, hunstarted]
            exact .nil

/-- A call. -/
theorem shows_invoke (hm : p.Machines m m') {c : Call} (hc : p.cls.Callable c) :
    p.Shows ((m'.invoke c.name c.descriptor c.args).1 = .error .stepLimit) (m.invokeTrace c)
      (m'.invokeTrace c) := by
  have hstart := hp.shows_start hm
  unfold invokeTrace invoke
  by_cases hlimit : m'.startClass.1 = .error .stepLimit
  · generalize m'.startClass = r' at hlimit hstart ⊢
    obtain ⟨result', m₁'⟩ := r'
    subst hlimit
    rw [List.append_nil]
    exact hstart.append_of_cut rfl
  · obtain ⟨hresult, hm₁, hready, -⟩ := hp.startClass_alike hm hlimit
    generalize m.startClass = r at hresult hm₁ ⊢
    generalize m'.startClass = r' at hresult hm₁ hready hstart hlimit ⊢
    obtain ⟨result, m₁⟩ := r
    obtain ⟨result', m₁'⟩ := r'
    dsimp only at hresult hm₁ hready hstart hlimit
    subst hresult
    refine hstart.append hlimit ?_
    cases result with
    | error fault => exact .nil
    | ok =>
        dsimp only
        rcases hp.code c.name c.descriptor (.inr hc.1) with ⟨hnone, hnone'⟩ |
          ⟨place, s, hplace, hsheet, hcode, hcode'⟩
        · have htrace : m₁.callTrace c.name c.descriptor (c.args.map .int) = [] := by
            simp only [callTrace, World.code, hm₁.worlds.cls, hnone]
          have htrace' : m₁'.callTrace c.name c.descriptor (c.args.map .int) = [] := by
            simp only [callTrace, World.code, hm₁.worlds.cls', hnone']
          rw [htrace, htrace']
          exact .nil
        · exact (hp.shows_call m₁ m₁' hplace hsheet hcode hcode' hm₁.worlds hm₁.budget
            (fun _ => hready) (hc.length_le hcode) c.plain_args).imp fun hcut => by rw [hcut]; rfl

/-- Calls one after the other. -/
theorem shows_traceOf (hm : p.Machines m m') {calls : List Call}
    (hcalls : ∀ c ∈ calls, p.cls.Callable c) :
    p.Shows (.error .stepLimit ∈ (m'.invokeAll calls).1) (m.traceOf calls) (m'.traceOf calls) := by
  induction calls generalizing m m' with
  | nil => exact .nil
  | cons c rest ih =>
      rw [List.forall_mem_cons] at hcalls
      have hfirst := hp.shows_invoke hm hcalls.1
      simp only [traceOf, Machine.invokeAll]
      by_cases hlimit : (m'.invoke c.name c.descriptor c.args).1 = .error .stepLimit
      · rw [traceOf_of_budget (budget_of_invoke hlimit), List.append_nil]
        exact hfirst.append_of_cut (hlimit ▸ List.mem_cons_self)
      · obtain ⟨-, hm₁, -⟩ := hp.invoke_alike hm hcalls.1 hlimit
        exact hfirst.append hlimit ((ih hm₁ hcalls.2).imp (List.mem_cons_of_mem _))

end Pairing.Good

end BytecodeCoverage
