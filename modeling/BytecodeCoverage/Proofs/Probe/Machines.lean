import BytecodeCoverage.Proofs.Probe.Simulation

/-!
# Calls on corresponding machines

A machine of a class and a machine of its counterpart give the same results, call by call, as long
as the machine with probes does not use up its instructions.  The tally of the class is what the
events of the calls make of it.

**Main definitions.**
* `ClassFile.Callable`: a call with room for the arguments.
* `Pairing.Machines`: corresponding machines.

**Results.**
* `Pairing.Good.path_called`, `Pairing.Good.path_initializer`: what a method begins with.
* `Pairing.Good.call_alike`: running a method to its end.
* `Pairing.Good.startClass_alike`: the class initializer.
* `Pairing.Good.invokeAll_alike`: calls one after the other.
-/

namespace BytecodeCoverage

open Machine

/-- A call of a method of the class, with room for the arguments if the method has code. -/
def ClassFile.Callable (cls : ClassFile) (c : Call) : Prop :=
  (cls.place? c.name c.descriptor).isSome ∧
    ∀ body ∈ (cls.method? c.name c.descriptor).bind Method.body,
      c.args.length ≤ body.maxLocals.toNat

/-- The arguments of a call are integers. -/
theorem Machine.Call.plain_args (c : Call) : ∀ v ∈ c.args.map Value.int, v.Plain := by
  intro v hv
  obtain ⟨n, -, rfl⟩ := List.mem_map.1 hv
  trivial

/-- A method that is called has room for the arguments. -/
theorem ClassFile.Callable.length_le {cls : ClassFile} {c : Call} (h : cls.Callable c) {body : Body}
    (hbody : (cls.method? c.name c.descriptor).bind Method.body = some body) :
    (c.args.map Value.int).length ≤ body.maxLocals.toNat := by
  rw [List.length_map]
  exact h.2 _ hbody

namespace Pairing

/-- A class initializer that does not fill the field belongs to a class without one. -/
theorem ready_of_unfilled {p : Pairing} {s : Sheet}
    (hfills : p.style.counters.strategy = .field → s.fills = true) {w' : World}
    (hfalse : s.fills = false) : p.Ready w' := by
  intro hstrategy
  rw [hfills hstrategy] at hfalse
  cases hfalse

/-- Corresponding machines; after the class initializer has been started, the field is ready. -/
structure Machines (p : Pairing) (m m' : Machine) : Prop where
  worlds : p.Worlds m.world m'.world
  budget : m'.budget ≤ m.budget
  initialized : m'.initialized = m.initialized
  ready : m.initialized = true → p.Ready m'.world

namespace Good

theorem initialized_call (m : Machine) (name descriptor : String) (args : List Value) :
    (m.call name descriptor args).2.initialized = m.initialized := by
  unfold Machine.call
  split <;> rfl

variable {p : Pairing} (hp : p.Good) (m m' : Machine) {name descriptor : String}

include hp

omit m m' in
/-- A method with code is entered. -/
theorem path_called {place : Nat} {s : Sheet} (hsheet : p.sheets place = some s) {w w' : World}
    (hworlds : p.Worlds w w') (hready : s.fills = false → p.Ready w')
    (hfills : s.fills = true → p.style.counters.strategy = .field) {args : List Value}
    (hargs : args.length ≤ s.weave.body.maxLocals.toNat) (hplain : ∀ v ∈ args, v.Plain) :
    ∃ xs t', Path xs ⟨[place], { frame := .enter s.body' args, world := w' }⟩ ⟨[place], t'⟩ ∧
      p.Threads [place] { frame := .enter s.weave.body args, world := w } t' ∧
      p.Noted w'.registry [⟨place, 0, .entered⟩] t'.world.registry ∧
      ∀ x ∈ xs, p.Aside [place] { frame := .enter s.weave.body args, world := w } x := by
  obtain ⟨xs, f', u', hrun, hlinked, hworlds₁, hready₁, harmed, hnoted, hxs⟩ :=
    hp.path_entered hsheet hworlds hready hfills hargs hplain [place] []
  refine ⟨xs, _, hrun, ⟨.cons hsheet hlinked .nil, hworlds₁, hready₁, ?_⟩, hnoted,
    fun x hx => ⟨place, [], s, [], rfl, hsheet, .nil, hxs x hx⟩⟩
  rintro ⟨other, hother, so, hso, hprobed⟩
  obtain rfl := List.mem_singleton.1 hother
  rw [hsheet] at hso
  cases hso
  exact harmed hprobed

/-- Running a method with code to its end. -/
theorem call_alike {place : Nat} {s : Sheet} (hplace : p.cls.place? name descriptor = some place)
    (hsheet : p.sheets place = some s)
    (hcode : (p.cls.method? name descriptor).bind Method.body = some s.weave.body)
    (hcode' : (p.cls'.method? name descriptor).bind Method.body = some s.body')
    (hworlds : p.Worlds m.world m'.world) (hbudget : m'.budget ≤ m.budget)
    (hready : s.fills = false → p.Ready m'.world) {args : List Value}
    (hargs : args.length ≤ s.weave.body.maxLocals.toNat) (hplain : ∀ v ∈ args, v.Plain)
    (hlimit : (m'.call name descriptor args).1 ≠ .error .stepLimit) :
    (m.call name descriptor args).1 = (m'.call name descriptor args).1 ∧
      p.Worlds (m.call name descriptor args).2.world (m'.call name descriptor args).2.world ∧
      (m'.call name descriptor args).2.budget ≤ (m.call name descriptor args).2.budget ∧
      p.Ready (m'.call name descriptor args).2.world ∧
      p.Noted m'.world.registry (m.callEvents name descriptor args)
        (m'.call name descriptor args).2.world.registry := by
  have hm : m.world.code name descriptor = .ok s.weave.body := by
    rw [World.code, hworlds.cls, hcode]
  have hm' : m'.world.code name descriptor = .ok s.body' := by
    rw [World.code, hworlds.cls', hcode']
  have hcall : m.call name descriptor args =
      ((Thread.run m.budget { frame := .enter s.weave.body args, world := m.world }).result,
        { m with
          world := (Thread.run m.budget
            { frame := .enter s.weave.body args, world := m.world }).world
          budget := (Thread.run m.budget
            { frame := .enter s.weave.body args, world := m.world }).budget }) := by
    simp only [Machine.call, hm]
  have hcall' : m'.call name descriptor args =
      ((Thread.run m'.budget { frame := .enter s.body' args, world := m'.world }).result,
        { m' with
          world := (Thread.run m'.budget { frame := .enter s.body' args, world := m'.world }).world
          budget := (Thread.run m'.budget
            { frame := .enter s.body' args, world := m'.world }).budget }) := by
    simp only [Machine.call, hm']
  have hevents : m.callEvents name descriptor args = ⟨place, 0, .entered⟩ ::
      Thread.events m.budget { frame := .enter s.weave.body args, world := m.world } [place] := by
    simp only [callEvents, hm, hworlds.cls, hplace]
  rw [hcall'] at hlimit
  obtain ⟨xs, t', hrun, hthreads, hnoted₁, -⟩ := hp.path_called hsheet hworlds hready
    (fun hfills => (hp.fills name descriptor place s hplace hsheet hfills).2) hargs hplain
  obtain ⟨hn, heq⟩ := hrun.run_eq hlimit
  dsimp only at heq
  rw [heq] at hlimit
  obtain ⟨hresult, hbudget₂, hworlds₂, hready₂, hnoted₂⟩ :=
    hp.run_alike (by omega : m'.budget - xs.length ≤ m.budget) hthreads hlimit
  rw [hcall, hcall', hevents, heq]
  exact ⟨hresult, hworlds₂, hbudget₂, hready₂, hnoted₁.trans hnoted₂⟩

/-! ## The class initializer -/

omit hp in
theorem body_initializer (c : Counters) :
    ∃ body, c.initializer.body = some body ∧ body.code = c.fill ++ [.simple .returnVoid] :=
  ⟨_, rfl, rfl⟩

omit m m' in
/-- An initializer that was added fills the field, and then it returns. -/
theorem path_initializer (hstrategy : p.style.counters.strategy = .field) {w w' : World}
    (hworlds : p.Worlds w w') {body : Body} (hbody : p.style.counters.initializer.body = some body)
    (places : List Nat) :
    ∃ xs f u', Path xs ⟨places, { frame := .enter body [], world := w' }⟩
        ⟨places, { frame := f, world := u' }⟩ ∧
      f.body = body ∧ f.stack = [] ∧ f.current? = some (.simple .returnVoid) ∧
      Filled p.cls.name w' u' ∧
      ∀ x ∈ xs, x.Amid body places [] 1 (fun _ => True) ∨
        ∃ g : Frame, g.body = body ∧ g.stack = [] ∧
          x.Amid p.style.counters.accessorBody (p.cls.methods.length :: places) [g] 2
            fun _ => True := by
  have hown := hp.own
  obtain ⟨_, hsome, hcode⟩ := body_initializer p.style.counters
  obtain rfl := Option.some.inj (hbody.symm.trans hsome)
  have haccessor : w'.code Entry.accessor p.style.counters.accessorDescriptor =
      .ok p.style.counters.accessorBody := by
    rw [World.code, hworlds.cls', hp.accessor hstrategy]
  have hfield := hworlds.field
  have hmade := hworlds.made
  rw [key, ← hown] at hfield hmade
  have hdrop : (Frame.enter body []).body.code.drop (Frame.enter body []).pos =
      p.style.counters.fill ++ [.simple .returnVoid] := hcode
  obtain ⟨xs, u', hrun, hfilled, hxs⟩ := Counters.path_fill places [] hdrop (hown ▸ hp.notOwner)
    (by rw [hworlds.cls', hp.name', hown]) haccessor (hworlds.cls' ▸ hp.accessorPlace hstrategy)
    hworlds.regular (hown ▸ hworlds.slots) hfield hmade
  refine ⟨xs, _, u', hrun, rfl, rfl, ?_, hown ▸ hfilled, fun x hx => (hxs x hx).imp
    (fun hhere => hhere.mono (Nat.le_refl _) fun _ _ => trivial)
    fun hthere => ⟨_, rfl, rfl, hthere⟩⟩
  simp [Frame.current?, Frame.enter, hcode]

/-- An initializer that was added fills the field. -/
theorem call_added (hstrategy : p.style.counters.strategy = .field)
    (hadded : p.cls'.method? Method.initializerName "()V" = some p.style.counters.initializer)
    {w : World} (hworlds : p.Worlds w m'.world)
    (hlimit : (m'.call Method.initializerName "()V" []).1 ≠ .error .stepLimit) :
    (m'.call Method.initializerName "()V" []).1 = .ok none ∧
      p.Worlds w (m'.call Method.initializerName "()V" []).2.world ∧
      (m'.call Method.initializerName "()V" []).2.budget ≤ m'.budget ∧
      p.Ready (m'.call Method.initializerName "()V" []).2.world ∧
      p.Noted m'.world.registry []
        (m'.call Method.initializerName "()V" []).2.world.registry := by
  have hown := hp.own
  obtain ⟨body, hbody, -⟩ := body_initializer p.style.counters
  have hcode : m'.world.code Method.initializerName "()V" = .ok body := by
    rw [World.code, hworlds.cls', hadded, Option.bind_some, hbody]
  simp only [Machine.call, hcode] at hlimit ⊢
  obtain ⟨xs, f, u', hrun, -, -, hinsn, hfilled, -⟩ :=
    hp.path_initializer hstrategy hworlds hbody []
  obtain ⟨hn, heq⟩ := hrun.run_eq hlimit
  dsimp only at heq
  rw [heq] at hlimit ⊢
  cases hrest : m'.budget - xs.length with
  | zero => simp [hrest, Thread.run, hinsn] at hlimit
  | succ rest =>
      have hlast : Thread.run (rest + 1) { frame := f, callers := [], world := u' } =
          { result := .ok none, world := u', budget := rest } := by
        simp [Thread.run, hinsn, Thread.step, Instruction.execute, executeOpcode,
          Opcode.intConstant, binary?, executeSimple, Thread.resume]
      rw [hlast]
      refine ⟨rfl, hworlds.filled hfilled, ?_, fun _ => ⟨hown ▸ hfilled.field, hown ▸ hfilled.made⟩,
        hfilled.counted, hfilled.tally, by simp⟩
      simp only
      omega

variable {m m'}

/-- Starting the class: afterwards the field is ready. -/
theorem startClass_alike (hm : p.Machines m m') (hlimit : m'.startClass.1 ≠ .error .stepLimit) :
    m.startClass.1 = m'.startClass.1 ∧ p.Machines m.startClass.2 m'.startClass.2 ∧
      p.Ready m'.startClass.2.world ∧
      p.Noted m'.world.registry m.startEvents m'.startClass.2.world.registry := by
  cases hinitialized : m.initialized with
  | true =>
      have hinitialized' := hm.initialized.trans hinitialized
      simp only [Machine.startClass, startEvents, hinitialized, hinitialized', if_true]
      exact ⟨trivial, hm, hm.ready hinitialized, .refl hm.worlds.regular⟩
  | false =>
      have hinitialized' := hm.initialized.trans hinitialized
      cases hmethod : p.cls.method? Method.initializerName "()V" with
      | some method =>
          obtain ⟨place, s, hplace, hsheet, hcode, hcode', hfills⟩ := hp.started method hmethod
          obtain ⟨method', hmethod', -⟩ := Option.bind_eq_some_iff.1 hcode'
          simp only [Machine.startClass, startEvents, hinitialized, hinitialized',
            Bool.false_eq_true, if_false, hm.worlds.cls, hm.worlds.cls', hmethod,
            hmethod'] at hlimit ⊢
          have hlimit' : (({ m' with initialized := true } : Machine).call
              Method.initializerName "()V" []).1 ≠ .error .stepLimit :=
            fun h => hlimit (by rw [h]; rfl)
          obtain ⟨hresult, hworlds, hbudget, hready', hnoted⟩ :=
            hp.call_alike { m with initialized := true } { m' with initialized := true } hplace
              hsheet hcode hcode' hm.worlds hm.budget (ready_of_unfilled hfills) (Nat.zero_le _)
              (by simp) hlimit'
          refine ⟨by rw [hresult], ⟨hworlds, hbudget, ?_, fun _ => hready'⟩, hready', hnoted⟩
          rw [initialized_call, initialized_call]
      | none =>
          have hunstarted := hp.unstarted hmethod
          by_cases hstrategy : p.style.counters.strategy = .field
          · rw [if_pos hstrategy] at hunstarted
            simp only [Machine.startClass, startEvents, hinitialized, hinitialized',
              Bool.false_eq_true, if_false, hm.worlds.cls, hm.worlds.cls', hmethod,
              hunstarted] at hlimit ⊢
            have hlimit' : (({ m' with initialized := true } : Machine).call
                Method.initializerName "()V" []).1 ≠ .error .stepLimit :=
              fun h => hlimit (by rw [h]; rfl)
            obtain ⟨hresult, hworlds, hbudget, hready', hnoted⟩ :=
              hp.call_added { m' with initialized := true } hstrategy hunstarted hm.worlds hlimit'
            refine ⟨by rw [hresult]; rfl, ⟨hworlds, Nat.le_trans hbudget hm.budget, ?_,
              fun _ => hready'⟩, hready', hnoted⟩
            rw [initialized_call]
          · rw [if_neg hstrategy] at hunstarted
            simp only [Machine.startClass, startEvents, hinitialized, hinitialized',
              Bool.false_eq_true, if_false, hm.worlds.cls, hm.worlds.cls', hmethod, hunstarted]
            have hready : p.Ready m'.world := fun h => absurd h hstrategy
            exact ⟨trivial, ⟨hm.worlds, hm.budget, rfl, fun _ => hready⟩, hready,
              .refl hm.worlds.regular⟩

/-! ## Calls -/

/-- A call gives the same result on both sides. -/
theorem invoke_alike (hm : p.Machines m m') {c : Call} (hc : p.cls.Callable c)
    (hlimit : (m'.invoke c.name c.descriptor c.args).1 ≠ .error .stepLimit) :
    (m.invoke c.name c.descriptor c.args).1 = (m'.invoke c.name c.descriptor c.args).1 ∧
      p.Machines (m.invoke c.name c.descriptor c.args).2
        (m'.invoke c.name c.descriptor c.args).2 ∧
      p.Noted m'.world.registry (m.invokeEvents c)
        (m'.invoke c.name c.descriptor c.args).2.world.registry := by
  have hstartLimit : m'.startClass.1 ≠ .error .stepLimit := by
    intro h
    apply hlimit
    rw [Machine.invoke]
    split
    · rename_i fault u heq
      rw [heq] at h
      simpa using h
    · rename_i u heq
      rw [heq] at h
      cases h
  obtain ⟨hstart, hm₁, hready, hnoted₁⟩ := hp.startClass_alike hm hstartLimit
  unfold Machine.invoke invokeEvents at *
  generalize m.startClass = r at hstart hm₁ ⊢
  generalize m'.startClass = r' at hstart hm₁ hready hnoted₁ hlimit ⊢
  obtain ⟨result, m₁⟩ := r
  obtain ⟨result', m₁'⟩ := r'
  dsimp only at hstart hm₁ hready hnoted₁
  subst hstart
  cases result with
  | error fault =>
      simp only [List.append_nil] at hlimit ⊢
      exact ⟨trivial, hm₁, hnoted₁⟩
  | ok =>
      simp only at hlimit ⊢
      rcases hp.code c.name c.descriptor (.inr hc.1) with ⟨hnone, hnone'⟩ |
        ⟨place, s, hplace, hsheet, hcode, hcode'⟩
      · have hcall : m₁.call c.name c.descriptor (c.args.map .int) =
            (.error (.noCode (c.name ++ c.descriptor)), m₁) := by
          simp only [Machine.call, World.code, hm₁.worlds.cls, hnone]
        have hcall' : m₁'.call c.name c.descriptor (c.args.map .int) =
            (.error (.noCode (c.name ++ c.descriptor)), m₁') := by
          simp only [Machine.call, World.code, hm₁.worlds.cls', hnone']
        have hevents : m₁.callEvents c.name c.descriptor (c.args.map .int) = [] := by
          simp only [callEvents, World.code, hm₁.worlds.cls, hnone]
        rw [hcall, hcall', hevents, List.append_nil]
        exact ⟨rfl, hm₁, hnoted₁⟩
      · obtain ⟨hresult, hworlds, hbudget, hready', hnoted₂⟩ :=
          hp.call_alike m₁ m₁' hplace hsheet hcode hcode' hm₁.worlds hm₁.budget
            (fun _ => hready) (hc.length_le hcode) c.plain_args fun h => hlimit (by rw [h]; rfl)
        refine ⟨by rw [hresult], ⟨hworlds, hbudget, ?_, fun _ => hready'⟩,
          hnoted₁.trans hnoted₂⟩
        rw [initialized_call, initialized_call]
        exact hm₁.initialized

/-- Calls one after the other give the same results on both sides. -/
theorem invokeAll_alike (hm : p.Machines m m') {calls : List Call}
    (hcalls : ∀ c ∈ calls, p.cls.Callable c)
    (hlimit : ∀ result ∈ (m'.invokeAll calls).1, result ≠ .error .stepLimit) :
    (m.invokeAll calls).1 = (m'.invokeAll calls).1 ∧
      p.Machines (m.invokeAll calls).2 (m'.invokeAll calls).2 ∧
      p.Noted m'.world.registry (m.eventsOf calls) (m'.invokeAll calls).2.world.registry := by
  induction calls generalizing m m' with
  | nil => exact ⟨rfl, hm, .refl hm.worlds.regular⟩
  | cons c rest ih =>
      simp only [Machine.invokeAll, List.mem_cons, forall_eq_or_imp, eventsOf] at hcalls hlimit ⊢
      obtain ⟨hresult, hm₁, hnoted₁⟩ := hp.invoke_alike hm hcalls.1 hlimit.1
      obtain ⟨hresults, hm₂, hnoted₂⟩ := ih hm₁ hcalls.2 hlimit.2
      exact ⟨by rw [hresult, hresults], hm₂, hnoted₁.trans hnoted₂⟩

end Good

end Pairing

end BytecodeCoverage
