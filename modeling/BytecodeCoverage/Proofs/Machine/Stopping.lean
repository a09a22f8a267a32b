import BytecodeCoverage.Proofs.Machine.Events
import BytecodeCoverage.Proofs.Machine.Heights

/-!
# Nothing runs forever

A machine runs a method in a loop over its instructions, and a method that it calls in a loop within
that loop.  Neither of them need end by itself: code may jump back, and methods may call each other.
What ends them is the number of instructions that the machine has counted, whatever method they
belong to.

`Counting.Runs` is this loop with its recursion and with no other bound, so a frame has an end in it
just if its run comes to one.  Every frame does (`Counting.exists_runs`), and comes to what the
stack of frames with a budget comes to (`Counting.Runs.thread`).  The induction is on the
instructions left to the machine, which are fewer at the next instruction, at the first instruction
of a method called, and after its return.

**Main definitions.**
* `Counting`: a machine with its counter and the instructions that it has executed.
* `Frame.react`: how a frame goes on after an instruction.
* `Counting.Runs`, `Counting.Invokes`, `Counting.Visits`: frames, calls and sequences of calls that
  come to an end.

**Results.**
* `Counting.Runs.unique`: there is one end at most.
* `Counting.exists_runs`: every frame comes to its end.
* `Counting.always_stops`: sequences of calls end, within the limit for all of them together.
-/

namespace BytecodeCoverage

namespace Machine

/-! ## Machines that count -/

/-- A machine that counts its instructions. -/
structure Counting where
  world : World
  /-- How many instructions it has set out to execute. -/
  count : Nat := 0
  /-- Those that it has executed, in order. -/
  executed : List Instruction := []
  /-- Whether the class initializer has been started. -/
  initialized : Bool := false

/-- A call, and the registry as the call finds it. -/
structure Visit where
  registry : Registry
  call : Call

/-- How things go on after an instruction of a frame. -/
inductive Reaction
  /-- In the same method. -/
  | on (frame : Frame) (world : World)
  /-- In a method called; the caller goes on after it. -/
  | enter (callee caller : Frame) (world : World)
  /-- The method has come to its end. -/
  | stop (result : Except MachineFault (Option Value)) (world : World)

/-- Executes an instruction of a frame. -/
def Frame.react (f : Frame) (world : World) (insn : Instruction) : Reaction :=
  match insn.execute f world with
  | .error fault => .stop (.error fault) world
  | .ok (.next g, world) => .on g.next world
  | .ok (.jump g target, world) =>
      match g.body.position? target with
      | some pos => .on { g with pos } world
      | none => .stop (.error (.unknownLabel target)) world
  | .ok (.leave result, world) => .stop (.ok result) world
  | .ok (.call g name descriptor args, world) =>
      match world.code name descriptor with
      | .ok body => .enter (.enter body args) g.next world
      | .error fault => .stop (.error fault) world

namespace Counting

/-- A machine for the methods of a class. -/
def start (cls : ClassFile) (registry : Registry) (keeper : Nat) : Counting where
  world := { cls, registry, keeper }

/-- The machine after it has executed an instruction. -/
def after (m : Counting) (insn : Instruction) (world : World) : Counting :=
  { m with world, count := m.count + 1, executed := m.executed ++ [insn] }

/-- The machine after it has refused to execute an instruction. -/
def refuse (m : Counting) : Counting :=
  { m with count := m.count + 1 }

/-- The machine with its class initializer started. -/
def started (m : Counting) : Counting :=
  { m with initialized := true }

/-- The machine with another registry. -/
def facing (m : Counting) (registry : Registry) : Counting :=
  { m with world := { m.world with registry } }

/-- The machine that counts down from the limit. -/
def machine (limit : Nat) (m : Counting) : Machine where
  world := m.world
  budget := limit - m.count
  initialized := m.initialized

section Relations

variable (limit : Nat)

/-- Running a frame to its end: the instructions one after the other, those of a method called
before those after the call. -/
inductive Runs : Counting → Frame → Except MachineFault (Option Value) → Counting → Prop
  | ended {m f} :
      f.current? = none → Runs m f (.error .fellOff) m
  | refused {m f insn} :
      f.current? = some insn → limit < m.count + 1 → Runs m f (.error .stepLimit) m.refuse
  | stop {m f insn result world} :
      f.current? = some insn → m.count + 1 ≤ limit →
      f.react m.world insn = .stop result world →
      Runs m f result (m.after insn world)
  | on {m f insn g world result m'} :
      f.current? = some insn → m.count + 1 ≤ limit →
      f.react m.world insn = .on g world →
      Runs (m.after insn world) g result m' →
      Runs m f result m'
  | failed {m f insn callee caller world fault m'} :
      f.current? = some insn → m.count + 1 ≤ limit →
      f.react m.world insn = .enter callee caller world →
      Runs (m.after insn world) callee (.error fault) m' →
      Runs m f (.error fault) m'
  | returned {m f insn callee caller world value middle result m'} :
      f.current? = some insn → m.count + 1 ≤ limit →
      f.react m.world insn = .enter callee caller world →
      Runs (m.after insn world) callee (.ok value) middle →
      Runs middle (caller.pushAny value) result m' →
      Runs m f result m'

/-- Running a method to its end. -/
inductive Calls (m : Counting) (name descriptor : String) (args : List Value) :
    Except MachineFault (Option Value) → Counting → Prop
  | ran {body result m'} :
      m.world.code name descriptor = .ok body → Runs limit m (.enter body args) result m' →
      Calls m name descriptor args result m'
  | missing {fault} :
      m.world.code name descriptor = .error fault → Calls m name descriptor args (.error fault) m

/-- Running the class initializer, if there is one and it has not been started. -/
inductive Starts (m : Counting) : Except MachineFault Unit → Counting → Prop
  | already :
      m.initialized = true → Starts m (.ok ()) m
  | nothing :
      m.initialized = false → m.world.cls.method? Method.initializerName "()V" = none →
      Starts m (.ok ()) m.started
  | ran {method result m'} :
      m.initialized = false → m.world.cls.method? Method.initializerName "()V" = some method →
      Calls limit m.started Method.initializerName "()V" [] result m' →
      Starts m (result.map fun _ => ()) m'

/-- Calling a method with integers; the first call starts the class initializer. -/
inductive Invokes (m : Counting) (c : Call) : Except MachineFault (Option Int32) → Counting → Prop
  | failed {fault m'} :
      Starts limit m (.error fault) m' → Invokes m c (.error fault) m'
  | called {middle result m'} :
      Starts limit m (.ok ()) middle →
      Calls limit middle c.name c.descriptor (c.args.map .int) result m' →
      Invokes m c (result.bind integerResult) m'

/-- Calls one after the other, whatever comes of them and whatever happens to the registry in
between. -/
inductive Visits :
    Counting → List Visit → List (Except MachineFault (Option Int32)) → Counting → Prop
  | nil {m} : Visits m [] [] m
  | cons {m v rest result middle results m'} :
      Invokes limit (m.facing v.registry) v.call result middle →
      Visits middle rest results m' →
      Visits m (v :: rest) (result :: results) m'

end Relations

end Counting

/-- The machine with another registry. -/
def facing (m : Machine) (registry : Registry) : Machine :=
  { m with world := { m.world with registry } }

/-- Calls one after the other. -/
def visitAll (m : Machine) : List Visit → List (Except MachineFault (Option Int32)) × Machine
  | [] => ([], m)
  | v :: rest =>
      let (result, m) := (m.facing v.registry).invoke v.call.name v.call.descriptor v.call.args
      let (results, m) := m.visitAll rest
      (result :: results, m)

theorem Thread.run_of_current {t : Thread} {insn : Instruction} (h : t.frame.current? = some insn)
    (budget : Nat) :
    t.run (budget + 1) =
      match t.step insn with
      | .running t => t.run budget
      | .ended result world => ⟨result, world, budget⟩ := by
  cases hstep : t.step insn <;> simp [Thread.run, h, hstep]

/-! ## The counter -/

namespace Counting

variable {limit : Nat}

/-- The instructions executed are those counted, as long as the limit is not exceeded. -/
def Exact (limit : Nat) (m : Counting) : Prop :=
  m.executed.length = min m.count limit

/-- The counter has not gone back, and the instructions executed are still those counted. -/
structure Later (limit : Nat) (m m' : Counting) : Prop where
  count_le : m.count ≤ m'.count
  exact : m.Exact limit → m'.Exact limit

namespace Later

theorem refl (m : Counting) : Later limit m m :=
  ⟨Nat.le_refl _, id⟩

theorem trans {m m' m'' : Counting} (h : Later limit m m') (h' : Later limit m' m'') :
    Later limit m m'' :=
  ⟨Nat.le_trans h.count_le h'.count_le, h'.exact ∘ h.exact⟩

theorem after {m : Counting} (h : m.count + 1 ≤ limit) (insn : Instruction) (world : World) :
    Later limit m (m.after insn world) := by
  refine ⟨Nat.le_succ m.count, fun hexact => ?_⟩
  simp only [Exact, Counting.after, List.length_append, List.length_singleton] at hexact ⊢
  omega

theorem refuse {m : Counting} (h : limit < m.count + 1) : Later limit m m.refuse := by
  refine ⟨Nat.le_succ m.count, fun hexact => ?_⟩
  simp only [Exact, Counting.refuse] at hexact ⊢
  omega

theorem started (m : Counting) : Later limit m m.started :=
  ⟨Nat.le_refl _, id⟩

theorem facing (m : Counting) (registry : Registry) : Later limit m (m.facing registry) :=
  ⟨Nat.le_refl _, id⟩

end Later

/-! ## Frames -/

section Frames

variable {m m' : Counting} {f : Frame} {insn : Instruction}
  {result : Except MachineFault (Option Value)}

theorem Runs.later (h : Runs limit m f result m') : Later limit m m' := by
  induction h with
  | ended => exact .refl _
  | refused _ hlimit => exact .refuse hlimit
  | stop _ hlt => exact .after hlt _ _
  | on _ hlt _ _ ih => exact .trans (.after hlt _ _) ih
  | failed _ hlt _ _ ih => exact .trans (.after hlt _ _) ih
  | returned _ hlt _ _ _ ihcallee ihrest => exact .trans (.after hlt _ _) (ihcallee.trans ihrest)

/-- The class initializer is not started within a frame. -/
theorem Runs.initialized_eq (h : Runs limit m f result m') : m'.initialized = m.initialized := by
  induction h with
  | ended => rfl
  | refused => rfl
  | stop => rfl
  | on _ _ _ _ ih => exact ih
  | failed _ _ _ _ ih => exact ih
  | returned _ _ _ _ _ ihcallee ihrest => exact ihrest.trans ihcallee

/-- Every frame comes to its end: whatever is run after an instruction has fewer of them left. -/
theorem exists_runs (limit : Nat) (m : Counting) (f : Frame) :
    ∃ result m', Runs limit m f result m' := by
  induction hleft : limit - m.count using Nat.strongRecOn generalizing m f with
  | ind left ih =>
      cases hinsn : f.current? with
      | none => exact ⟨_, _, .ended hinsn⟩
      | some insn =>
          rcases Nat.lt_or_ge limit (m.count + 1) with hlimit | hlt
          · exact ⟨_, _, .refused hinsn hlimit⟩
          have hless (middle : Counting) (g : Frame) (h : m.count + 1 ≤ middle.count) :
              ∃ result m', Runs limit middle g result m' :=
            ih (limit - middle.count) (by omega) middle g rfl
          cases hreact : f.react m.world insn with
          | stop result world => exact ⟨_, _, .stop hinsn hlt hreact⟩
          | on g world =>
              obtain ⟨result, m', hrest⟩ := hless (m.after insn world) g (Nat.le_refl _)
              exact ⟨_, _, .on hinsn hlt hreact hrest⟩
          | enter callee caller world =>
              obtain ⟨inner, middle, hcallee⟩ :=
                hless (m.after insn world) callee (Nat.le_refl _)
              cases inner with
              | error fault => exact ⟨_, _, .failed hinsn hlt hreact hcallee⟩
              | ok value =>
                  -- What the method called has executed is counted, so there is less left after it.
                  obtain ⟨result, m', hrest⟩ :=
                    hless middle (caller.pushAny value) hcallee.later.count_le
                  exact ⟨_, _, .returned hinsn hlt hreact hcallee hrest⟩

/-- How a frame goes on after an instruction that is executed is how it has gone on in any run. -/
theorem Runs.of_current (h : Runs limit m f result m') (hinsn : f.current? = some insn)
    (hlt : m.count + 1 ≤ limit) :
    match f.react m.world insn with
    | .stop last world => result = last ∧ m' = m.after insn world
    | .on g world => Runs limit (m.after insn world) g result m'
    | .enter callee caller world => ∃ inner middle,
        Runs limit (m.after insn world) callee inner middle ∧
        match inner with
        | .error fault => result = .error fault ∧ m' = middle
        | .ok value => Runs limit middle (caller.pushAny value) result m' := by
  cases h with
  | ended hnone => cases hinsn.symm.trans hnone
  | refused _ hlimit => omega
  | stop hsome _ hreact =>
      obtain rfl := Option.some.inj (hinsn.symm.trans hsome)
      rw [hreact]
      exact ⟨rfl, rfl⟩
  | on hsome _ hreact hrest =>
      obtain rfl := Option.some.inj (hinsn.symm.trans hsome)
      rw [hreact]
      exact hrest
  | failed hsome _ hreact hcallee =>
      obtain rfl := Option.some.inj (hinsn.symm.trans hsome)
      rw [hreact]
      exact ⟨_, _, hcallee, rfl, rfl⟩
  | returned hsome _ hreact hcallee hrest =>
      obtain rfl := Option.some.inj (hinsn.symm.trans hsome)
      rw [hreact]
      exact ⟨_, _, hcallee, hrest⟩

/-- A frame comes to one end at most. -/
theorem Runs.unique {result' : Except MachineFault (Option Value)} {m'' : Counting}
    (h : Runs limit m f result m') (h' : Runs limit m f result' m'') :
    result' = result ∧ m'' = m' := by
  induction h generalizing result' m'' with
  | ended hnone =>
      cases h' with
      | ended => exact ⟨rfl, rfl⟩
      | refused hsome | stop hsome | on hsome | failed hsome | returned hsome =>
          cases hnone.symm.trans hsome
  | refused hinsn hlimit =>
      cases h' with
      | ended hnone => cases hinsn.symm.trans hnone
      | refused => exact ⟨rfl, rfl⟩
      | stop _ hlt | on _ hlt | failed _ hlt | returned _ hlt => omega
  | stop hinsn hlt hreact =>
      have h' := h'.of_current hinsn hlt
      rw [hreact] at h'
      exact h'
  | on hinsn hlt hreact _ ih =>
      have h' := h'.of_current hinsn hlt
      rw [hreact] at h'
      exact ih h'
  | failed hinsn hlt hreact _ ih =>
      have h' := h'.of_current hinsn hlt
      rw [hreact] at h'
      obtain ⟨inner, middle, hcallee, hrest⟩ := h'
      obtain ⟨rfl, rfl⟩ := ih hcallee
      exact hrest
  | returned hinsn hlt hreact _ _ ihcallee ihrest =>
      have h' := h'.of_current hinsn hlt
      rw [hreact] at h'
      obtain ⟨inner, middle, hcallee, hrest⟩ := h'
      obtain ⟨rfl, rfl⟩ := ihcallee hcallee
      exact ihrest hrest

/-! ## Threads -/

/-- What a thread makes of the end of its innermost frame. -/
def handOn (limit : Nat) (callers : List Frame) (result : Except MachineFault (Option Value))
    (m : Counting) : Finished :=
  match result, callers with
  | .ok value, f :: callers =>
      Thread.run (limit - m.count) { frame := f.pushAny value, callers, world := m.world }
  | result, _ => ⟨result, m.world, limit - m.count⟩

/-- A thread goes on after an instruction of its innermost frame as that frame does. -/
theorem run_eq_react (hinsn : f.current? = some insn) (hlt : m.count + 1 ≤ limit)
    (callers : List Frame) :
    Thread.run (limit - m.count) { frame := f, callers, world := m.world } =
      match f.react m.world insn with
      | .stop result world => handOn limit callers result (m.after insn world)
      | .on g world => Thread.run (limit - (m.count + 1)) { frame := g, callers, world }
      | .enter callee caller world =>
          Thread.run (limit - (m.count + 1))
            { frame := callee, callers := caller :: callers, world } := by
  have hbudget : limit - m.count = limit - (m.count + 1) + 1 := by omega
  rw [hbudget, Thread.run_of_current hinsn]
  simp only [Thread.step, Frame.react]
  cases insn.execute f m.world with
  | error fault => rfl
  | ok r =>
      obtain ⟨outcome, world⟩ := r
      cases outcome with
      | next g => rfl
      | jump g target =>
          simp only [Thread.resume]
          cases g.body.position? target <;> rfl
      | call g name descriptor args =>
          simp only [Thread.resume]
          cases world.code name descriptor <;> rfl
      | leave value => cases callers <;> rfl

/-- A frame comes to its end in a thread, whatever frames wait for it. -/
theorem Runs.thread (h : Runs limit m f result m') (callers : List Frame) :
    Thread.run (limit - m.count) { frame := f, callers, world := m.world } =
      handOn limit callers result m' := by
  -- For any callers, since the frame that calls a method waits for it with those it has itself.
  induction h generalizing callers with
  | ended hnone => simp [Thread.run, hnone, handOn]
  | @refused m f insn hinsn hlimit =>
      have hnone : limit - m.count = 0 := by omega
      have hafter : limit - (m.count + 1) = 0 := by omega
      simp [Thread.run, hinsn, handOn, refuse, hnone, hafter]
  | stop hinsn hlt hreact => rw [run_eq_react hinsn hlt, hreact]
  | on hinsn hlt hreact _ ih =>
      rw [run_eq_react hinsn hlt, hreact]
      exact ih callers
  | failed hinsn hlt hreact _ ih =>
      rw [run_eq_react hinsn hlt, hreact]
      exact ih _
  | returned hinsn hlt hreact _ _ ihcallee ihrest =>
      rw [run_eq_react hinsn hlt, hreact]
      exact (ihcallee _).trans (ihrest callers)

/-- The run of a thread of one frame. -/
theorem Runs.run_eq (h : Runs limit m f result m') :
    Thread.run (limit - m.count) { frame := f, world := m.world } =
      ⟨result, m'.world, limit - m'.count⟩ := by
  rw [h.thread []]
  cases result <;> rfl

/-- A frame that is cut short has used up the instructions. -/
theorem Runs.limit_le (h : Runs limit m f (.error .stepLimit) m') : limit ≤ m'.count := by
  have hresult := congrArg Finished.result h.run_eq
  have hbudget := congrArg Finished.budget h.run_eq
  rw [Thread.budget_of_stepLimit hresult] at hbudget
  exact Nat.le_of_sub_eq_zero hbudget.symm

end Frames

/-! ## Calls -/

section Calls

variable {m m' : Counting} {c : Call} {name descriptor : String} {args : List Value}

theorem exists_calls (limit : Nat) (m : Counting) (name descriptor : String) (args : List Value) :
    ∃ result m', Calls limit m name descriptor args result m' := by
  cases hcode : m.world.code name descriptor with
  | error fault => exact ⟨_, _, .missing hcode⟩
  | ok body =>
      obtain ⟨result, m', hruns⟩ := exists_runs limit m (.enter body args)
      exact ⟨_, _, .ran hcode hruns⟩

namespace Calls

variable {result result' : Except MachineFault (Option Value)} {m'' : Counting}

theorem unique (h : Calls limit m name descriptor args result m')
    (h' : Calls limit m name descriptor args result' m'') : result' = result ∧ m'' = m' := by
  cases h with
  | missing hcode =>
      cases h' with
      | missing hcode' =>
          cases hcode.symm.trans hcode'
          exact ⟨rfl, rfl⟩
      | ran hcode' => cases hcode.symm.trans hcode'
  | ran hcode hruns =>
      cases h' with
      | missing hcode' => cases hcode.symm.trans hcode'
      | ran hcode' hruns' =>
          cases hcode.symm.trans hcode'
          exact hruns.unique hruns'

theorem later (h : Calls limit m name descriptor args result m') : Later limit m m' := by
  cases h with
  | missing => exact .refl m
  | ran _ hruns => exact hruns.later

theorem initialized_eq (h : Calls limit m name descriptor args result m') :
    m'.initialized = m.initialized := by
  cases h with
  | missing => rfl
  | ran _ hruns => exact hruns.initialized_eq

theorem limit_le (h : Calls limit m name descriptor args (.error .stepLimit) m') :
    limit ≤ m'.count := by
  cases h with
  | missing hcode =>
      unfold World.code at hcode
      split at hcode <;> cases hcode
  | ran _ hruns => exact hruns.limit_le

theorem call_eq (h : Calls limit m name descriptor args result m') :
    (m.machine limit).call name descriptor args = (result, m'.machine limit) := by
  cases h with
  | missing hcode => simp only [Machine.call, machine, hcode]
  | ran hcode hruns => simp only [Machine.call, machine, hcode, hruns.run_eq, hruns.initialized_eq]

end Calls

theorem exists_starts (limit : Nat) (m : Counting) : ∃ result m', Starts limit m result m' := by
  cases hinitialized : m.initialized with
  | true => exact ⟨_, _, .already hinitialized⟩
  | false =>
      cases hmethod : m.world.cls.method? Method.initializerName "()V" with
      | none => exact ⟨_, _, .nothing hinitialized hmethod⟩
      | some method =>
          obtain ⟨result, m', hcalls⟩ :=
            exists_calls limit m.started Method.initializerName "()V" []
          exact ⟨_, _, .ran hinitialized hmethod hcalls⟩

namespace Starts

variable {result result' : Except MachineFault Unit} {m'' : Counting}

theorem unique (h : Starts limit m result m') (h' : Starts limit m result' m'') :
    result' = result ∧ m'' = m' := by
  cases h with
  | already hinitialized =>
      cases h' with
      | already => exact ⟨rfl, rfl⟩
      | nothing hnot | ran hnot => cases hinitialized.symm.trans hnot
  | nothing hinitialized hmethod =>
      cases h' with
      | already hstarted => cases hinitialized.symm.trans hstarted
      | nothing => exact ⟨rfl, rfl⟩
      | ran _ hsome => cases hmethod.symm.trans hsome
  | ran hinitialized hmethod hcalls =>
      cases h' with
      | already hstarted => cases hinitialized.symm.trans hstarted
      | nothing _ hnone => cases hmethod.symm.trans hnone
      | ran _ _ hcalls' =>
          obtain ⟨rfl, rfl⟩ := hcalls.unique hcalls'
          exact ⟨rfl, rfl⟩

theorem later (h : Starts limit m result m') : Later limit m m' := by
  cases h with
  | already => exact .refl m
  | nothing => exact .started m
  | ran _ _ hcalls => exact .trans (.started m) hcalls.later

theorem initialized (h : Starts limit m result m') : m'.initialized = true := by
  cases h with
  | already hinitialized => exact hinitialized
  | nothing => rfl
  | ran _ _ hcalls => exact hcalls.initialized_eq

theorem limit_le (h : Starts limit m (.error .stepLimit) m') : limit ≤ m'.count := by
  generalize hresult : (.error .stepLimit : Except MachineFault Unit) = result at h
  cases h with
  | already => cases hresult
  | nothing => cases hresult
  | @ran method result _ _ _ hcalls =>
      cases result with
      | ok value => cases hresult
      | error fault =>
          cases hresult
          exact hcalls.limit_le

theorem startClass_eq (h : Starts limit m result m') :
    (m.machine limit).startClass = (result, m'.machine limit) := by
  cases h with
  | already hinitialized => simp [Machine.startClass, machine, hinitialized]
  | nothing hinitialized hmethod =>
      simp [Machine.startClass, machine, hinitialized, hmethod, started]
  | ran hinitialized hmethod hcalls =>
      have hcall := hcalls.call_eq
      simp only [machine, started] at hcall
      simp [Machine.startClass, machine, hinitialized, hmethod, hcall]

end Starts

theorem exists_invokes (limit : Nat) (m : Counting) (c : Call) :
    ∃ result m', Invokes limit m c result m' := by
  obtain ⟨outcome, middle, hstarts⟩ := exists_starts limit m
  cases outcome with
  | error fault => exact ⟨_, _, .failed hstarts⟩
  | ok =>
      obtain ⟨result, m', hcalls⟩ :=
        exists_calls limit middle c.name c.descriptor (c.args.map .int)
      exact ⟨_, _, .called hstarts hcalls⟩

namespace Invokes

variable {result result' : Except MachineFault (Option Int32)} {m'' : Counting}

theorem unique (h : Invokes limit m c result m') (h' : Invokes limit m c result' m'') :
    result' = result ∧ m'' = m' := by
  cases h with
  | failed hstarts =>
      cases h' with
      | failed hstarts' =>
          obtain ⟨hfault, rfl⟩ := hstarts.unique hstarts'
          cases hfault
          exact ⟨rfl, rfl⟩
      | called hstarts' => cases (hstarts.unique hstarts').1
  | called hstarts hcalls =>
      cases h' with
      | failed hstarts' => cases (hstarts.unique hstarts').1
      | called hstarts' hcalls' =>
          obtain ⟨-, rfl⟩ := hstarts.unique hstarts'
          obtain ⟨rfl, rfl⟩ := hcalls.unique hcalls'
          exact ⟨rfl, rfl⟩

theorem later (h : Invokes limit m c result m') : Later limit m m' := by
  cases h with
  | failed hstarts => exact hstarts.later
  | called hstarts hcalls => exact hstarts.later.trans hcalls.later

/-- After the first call the class initializer has been started. -/
theorem initialized (h : Invokes limit m c result m') : m'.initialized = true := by
  cases h with
  | failed hstarts => exact hstarts.initialized
  | called hstarts hcalls => exact hcalls.initialized_eq.trans hstarts.initialized

theorem limit_le (h : Invokes limit m c (.error .stepLimit) m') : limit ≤ m'.count := by
  generalize hresult : (.error .stepLimit : Except MachineFault (Option Int32)) = result at h
  cases h with
  | failed hstarts =>
      cases hresult
      exact hstarts.limit_le
  | @called middle result _ hstarts hcalls =>
      cases result with
      | error fault =>
          cases hresult
          exact hcalls.limit_le
      | ok value =>
          cases value with
          | none => cases hresult
          | some v => cases v <;> cases hresult

theorem invoke_eq (h : Invokes limit m c result m') :
    (m.machine limit).invoke c.name c.descriptor c.args = (result, m'.machine limit) := by
  cases h with
  | failed hstarts => simp only [Machine.invoke, hstarts.startClass_eq]
  | called hstarts hcalls => simp only [Machine.invoke, hstarts.startClass_eq, hcalls.call_eq]

end Invokes

/-- A machine whose instructions are used up executes no more of them. -/
theorem exists_invokes_of_limit_le (hlimit : limit ≤ m.count) (hinitialized : m.initialized = true)
    (c : Call) :
    ∃ fault m', Invokes limit m c (.error fault) m' ∧ m'.executed = m.executed ∧
      ∀ body, m.world.code c.name c.descriptor = .ok body → body.code ≠ [] →
        fault = .stepLimit := by
  have hstarts : Starts limit m (.ok ()) m := .already hinitialized
  cases hcode : m.world.code c.name c.descriptor with
  | error fault => exact ⟨fault, m, .called hstarts (.missing hcode), rfl, nofun⟩
  | ok body =>
      cases hinsn : (Frame.enter body (c.args.map .int)).current? with
      | none =>
          have hempty : body.code = [] :=
            List.length_eq_zero_iff.1 (Nat.le_zero.1 (List.getElem?_eq_none_iff.1 hinsn))
          refine ⟨.fellOff, m, .called hstarts (.ran hcode (.ended hinsn)), rfl, ?_⟩
          rintro _ ⟨⟩ hne
          exact absurd hempty hne
      | some insn =>
          exact ⟨.stepLimit, m.refuse,
            .called hstarts (.ran hcode (.refused hinsn (Nat.lt_succ_of_le hlimit))), rfl,
            fun _ _ _ => rfl⟩

end Calls

/-! ## Sequences of calls -/

section Visits

variable {m m' : Counting} {visits : List Visit}
  {results : List (Except MachineFault (Option Int32))}

theorem exists_visits (limit : Nat) (m : Counting) (visits : List Visit) :
    ∃ results m', Visits limit m visits results m' := by
  induction visits generalizing m with
  | nil => exact ⟨_, _, .nil⟩
  | cons v rest ih =>
      obtain ⟨result, middle, hinvokes⟩ := exists_invokes limit (m.facing v.registry) v.call
      obtain ⟨results, m', hvisits⟩ := ih middle
      exact ⟨_, _, .cons hinvokes hvisits⟩

namespace Visits

theorem unique {results' : List (Except MachineFault (Option Int32))} {m'' : Counting}
    (h : Visits limit m visits results m') (h' : Visits limit m visits results' m'') :
    results' = results ∧ m'' = m' := by
  induction h generalizing results' with
  | nil =>
      cases h'
      exact ⟨rfl, rfl⟩
  | cons hinvokes _ ih =>
      cases h' with
      | cons hinvokes' hvisits' =>
          obtain ⟨rfl, rfl⟩ := hinvokes.unique hinvokes'
          obtain ⟨rfl, rfl⟩ := ih hvisits'
          exact ⟨rfl, rfl⟩

theorem later (h : Visits limit m visits results m') : Later limit m m' := by
  induction h with
  | nil => exact .refl _
  | cons hinvokes _ ih => exact .trans (.facing _ _) (hinvokes.later.trans ih)

theorem initialized (h : Visits limit m visits results m') : m'.initialized = true ∨ m' = m := by
  induction h with
  | nil => exact .inr rfl
  | cons hinvokes _ ih =>
      rcases ih with htrue | rfl
      · exact .inl htrue
      · exact .inl hinvokes.initialized

theorem limit_le (h : Visits limit m visits results m') (hmem : .error .stepLimit ∈ results) :
    limit ≤ m'.count := by
  induction h with
  | nil => cases hmem
  | cons hinvokes hvisits ih =>
      rcases List.mem_cons.1 hmem with rfl | htail
      · exact Nat.le_trans hinvokes.limit_le hvisits.later.count_le
      · exact ih htail

theorem visitAll_eq (h : Visits limit m visits results m') :
    (m.machine limit).visitAll visits = (results, m'.machine limit) := by
  induction h with
  | nil => rfl
  | @cons m v _ _ _ _ _ hinvokes _ ih =>
      have hinvoke : ((m.machine limit).facing v.registry).invoke _ _ _ = _ := hinvokes.invoke_eq
      simp only [Machine.visitAll, hinvoke, ih]

end Visits

end Visits

/-- Calls on a machine end, whatever class they are made on, whatever has become of the registry
before each of them, and whatever methods they call in turn.  The machine has executed at most
100000 instructions for all of them together, the class initializer included.  If some call has
failed for want of instructions, so many have been executed, and once they are, every further call
that comes to an instruction fails in this way, and no call executes anything. -/
theorem always_stops (cls : ClassFile) (registry : Registry) (keeper : Nat) (visits : List Visit) :
    ∃ results m,
      (∀ results' m', Visits stepLimit (start cls registry keeper) visits results' m' ↔
        results' = results ∧ m' = m) ∧
      (Machine.start cls registry keeper).visitAll visits = (results, m.machine stepLimit) ∧
      m.executed.length ≤ 100000 ∧
      (.error .stepLimit ∈ results → m.executed.length = 100000) ∧
      (m.executed.length = 100000 → ∀ v : Visit, ∃ fault m',
        (∀ result m'', Invokes stepLimit (m.facing v.registry) v.call result m'' ↔
          result = .error fault ∧ m'' = m') ∧
        m'.executed = m.executed ∧
        ∀ body, m.world.code v.call.name v.call.descriptor = .ok body → body.code ≠ [] →
          fault = .stepLimit) := by
  obtain ⟨results, m, hvisits⟩ := exists_visits stepLimit (start cls registry keeper) visits
  have hexact : m.executed.length = min m.count 100000 := hvisits.later.exact rfl
  refine ⟨results, m, fun results' m' => ⟨hvisits.unique, ?_⟩, hvisits.visitAll_eq, by omega,
    fun hmem => ?_, fun hall v => ?_⟩
  · rintro ⟨rfl, rfl⟩
    exact hvisits
  · have hused : 100000 ≤ m.count := hvisits.limit_le hmem
    omega
  · have hused : stepLimit ≤ m.count := by
      show 100000 ≤ m.count
      omega
    have hstarted : m.initialized = true := by
      rcases hvisits.initialized with htrue | rfl
      · exact htrue
      · cases hall
    obtain ⟨fault, m', hinvokes, hexecuted, hfault⟩ :=
      exists_invokes_of_limit_le (m := m.facing v.registry) hused hstarted v.call
    refine ⟨fault, m', fun result m'' => ⟨hinvokes.unique, ?_⟩, hexecuted, hfault⟩
    rintro ⟨rfl, rfl⟩
    exact hinvokes

end Counting

end Machine

end BytecodeCoverage
