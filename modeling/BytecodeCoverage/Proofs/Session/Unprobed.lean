import BytecodeCoverage.Proofs.Session.Instrumented

/-!
# Classes without probes

Code that knows nothing of counters leaves the registry alone, whatever it is called with.  So a
machine whose class was not instrumented has no part in what is counted.

**Main definitions.**
* `Machine.Quiet`: machines of an admissible class as it is.

**Results.**
* `Machine.Quiet.invoke`: calls change nothing in the registry.
-/

namespace BytecodeCoverage

open Machine

namespace Machine

/-- A frame of a method of the class, without arrays of the registry. -/
structure Frame.Quiet (cls : ClassFile) (f : Frame) : Prop where
  body : ∃ method ∈ cls.methods, method.body = some f.body
  locals : f.body.maxLocals.toNat ≤ f.locals.length
  plainStack : ∀ v ∈ f.stack, v.Plain
  plainLocals : ∀ v ∈ f.locals, v.Plain

structure World.Quiet (cls : ClassFile) (w : World) : Prop where
  cls : w.cls = cls
  plain : ∀ other v, w.statics.get? other = some v → v.Plain

structure Thread.Quiet (cls : ClassFile) (t : Thread) : Prop where
  frame : t.frame.Quiet cls
  callers : ∀ f ∈ t.callers, f.Quiet cls
  world : t.world.Quiet cls

variable {cls : ClassFile}

theorem Frame.quiet_enter {name descriptor : String} {body : Body} {args : List Value}
    (hbody : (cls.method? name descriptor).bind Method.body = some body)
    (hargs : ∀ v ∈ args, v.Plain) : (Frame.enter body args).Quiet cls := by
  obtain ⟨method, hmethod, hsome⟩ := Option.bind_eq_some_iff.1 hbody
  constructor
  · exact ⟨method, List.mem_of_find?_eq_some hmethod, hsome⟩
  · simp only [Frame.enter, List.length_append, List.length_replicate]
    omega
  · simp [Frame.enter]
  · intro v hv
    rcases List.mem_append.1 hv with hv | hv
    · exact hargs v hv
    · rw [List.eq_of_mem_replicate hv]
      trivial

/-- The frame after an instruction runs the same body with as many local variables. -/
theorem Frame.Quiet.of_twins {k : Twins} {f g : Frame} (h : f.Quiet cls) (hbody : k.body = f.body)
    (hcount : k.count = f.locals.length) (hg : k.Frames g g) : g.Quiet cls := by
  have heq : g.body = f.body := hg.body.trans hbody
  constructor
  · rw [heq]
    exact h.body
  · rw [heq, hg.count, hcount]
    exact h.locals
  · exact hg.plainStack
  · exact hg.plainLocals

theorem Frame.Quiet.pushAny {f : Frame} (h : f.Quiet cls) {result : Option Value}
    (hresult : ∀ v ∈ result, v.Plain) : (f.pushAny result).Quiet cls := by
  cases result with
  | none => exact h
  | some v =>
      exact ⟨h.body, h.locals, List.forall_mem_cons.2 ⟨hresult v rfl, h.plainStack⟩, h.plainLocals⟩

theorem World.Quiet.code {w : World} (h : w.Quiet cls) (name descriptor : String) :
    (∃ body, (cls.method? name descriptor).bind Method.body = some body ∧
        w.code name descriptor = .ok body) ∨
      w.code name descriptor = .error (.noCode (name ++ descriptor)) := by
  rw [World.code, h.cls]
  cases (cls.method? name descriptor).bind Method.body with
  | none => exact .inr rfl
  | some body => exact .inl ⟨body, rfl, rfl⟩

/-- What a step leaves alone. -/
def Progress.Quiet (cls : ClassFile) (registry : Registry) : Progress → Prop
  | .running t => t.Quiet cls ∧ t.world.registry = registry
  | .ended _ w => w.Quiet cls ∧ w.registry = registry

/-- A frame next to itself. -/
def Frame.alone (f : Frame) : Twins :=
  ⟨f.body, f.pos, f.body, f.pos, f.locals.length, []⟩

/-- An instruction of a method that knows nothing of counters leaves its frame where it is, and
changes only static fields. -/
theorem Thread.Quiet.execute (hcls : cls.Admissible) {t : Thread} (h : t.Quiet cls)
    {insn : Instruction} (hinsn : t.frame.current? = some insn) {outcome : Outcome} {w : World}
    (hexecute : insn.execute t.frame t.world = .ok (outcome, w)) :
    t.frame.alone.Outcomes outcome outcome ∧ w.Quiet cls ∧ w.registry = t.world.registry := by
  obtain ⟨method, hmethod, hbody⟩ := h.frame.body
  have hneutral := hcls.body method hmethod t.frame.body hbody
  have hmem : insn ∈ t.frame.body.code := List.mem_of_getElem? hinsn
  have hframes : t.frame.alone.Frames t.frame t.frame :=
    ⟨rfl, rfl, rfl, rfl, rfl, (List.append_nil _).symm, rfl, h.frame.plainStack,
      h.frame.plainLocals⟩
  have hworlds : Worlds (Entry.fieldKey cls.name) t.world t.world t.world t.world :=
    ⟨rfl, rfl, rfl, fun _ _ => rfl, h.world.plain⟩
  have halike := execute_alike (hneutral.unaware insn hmem)
    (fun index hindex => Nat.lt_of_lt_of_le
      (UInt16.lt_iff_toNat_lt.1 (hneutral.locals insn hmem index hindex)) h.frame.locals)
    rfl hframes hworlds
  rw [hexecute] at halike
  cases halike with
  | ok hr =>
      have hfirst : w = { t.world with statics := w.statics } := hr.2.first
      exact ⟨hr.1, ⟨by rw [hfirst, h.world.cls], hr.2.plain⟩, by rw [hfirst]⟩

/-- An instruction of a method that knows nothing of counters does not change the registry. -/
theorem Thread.Quiet.step (hcls : cls.Admissible) {t : Thread} (h : t.Quiet cls)
    {insn : Instruction} (hinsn : t.frame.current? = some insn) :
    (t.step insn).Quiet cls t.world.registry := by
  unfold Thread.step
  cases hexecute : insn.execute t.frame t.world with
  | error fault => exact ⟨h.world, rfl⟩
  | ok r =>
      obtain ⟨outcome, w⟩ := r
      obtain ⟨houtcome, hquiet, hregistry⟩ := h.execute hcls hinsn hexecute
      cases houtcome with
      | next hf =>
          have hg := h.frame.of_twins rfl rfl hf
          exact ⟨⟨⟨hg.body, hg.locals, hg.plainStack, hg.plainLocals⟩, h.callers, hquiet⟩, hregistry⟩
      | @jump f _ target hf =>
          have hg := h.frame.of_twins rfl rfl hf
          simp only [resume]
          cases f.body.position? target with
          | none => exact ⟨hquiet, hregistry⟩
          | some pos =>
              exact ⟨⟨⟨hg.body, hg.locals, hg.plainStack, hg.plainLocals⟩, h.callers, hquiet⟩,
                hregistry⟩
      | @call f _ name descriptor args _ hf _ _ _ _ hplain =>
          have hg := h.frame.of_twins rfl rfl hf
          have hnext : f.next.Quiet cls := ⟨hg.body, hg.locals, hg.plainStack, hg.plainLocals⟩
          simp only [resume]
          rcases hquiet.code name descriptor with ⟨body, hbody, hcode⟩ | hcode
          · rw [hcode]
            exact ⟨⟨Frame.quiet_enter hbody hplain, List.forall_mem_cons.2 ⟨hnext, h.callers⟩,
              hquiet⟩, hregistry⟩
          · rw [hcode]
            exact ⟨hquiet, hregistry⟩
      | @leave result hresult =>
          simp only [resume]
          cases hcallers : t.callers with
          | nil => exact ⟨hquiet, hregistry⟩
          | cons f callers =>
              have hall := h.callers
              rw [hcallers, List.forall_mem_cons] at hall
              exact ⟨⟨hall.1.pushAny hresult, hall.2, hquiet⟩, hregistry⟩

theorem Thread.Quiet.run (hcls : cls.Admissible) (budget : Nat) {t : Thread} (h : t.Quiet cls) :
    (t.run budget).world.Quiet cls ∧ (t.run budget).world.registry = t.world.registry := by
  induction budget generalizing t with
  | zero =>
      unfold Thread.run
      cases t.frame.current? <;> exact ⟨h.world, rfl⟩
  | succ budget ih =>
      unfold Thread.run
      cases hinsn : t.frame.current? with
      | none => exact ⟨h.world, rfl⟩
      | some insn =>
          have hstep := h.step hcls hinsn
          dsimp only
          generalize t.step insn = progress at hstep ⊢
          cases progress with
          | ended result w => exact hstep
          | running after =>
              obtain ⟨hquiet, hregistry⟩ := ih hstep.1
              exact ⟨hquiet, hregistry.trans hstep.2⟩

/-! ## Machines -/

/-- A machine of the class as it is. -/
def Quiet (cls : ClassFile) (m : Machine) : Prop :=
  m.world.Quiet cls

theorem quiet_start (cls : ClassFile) (registry : Registry) (keeper : Nat) :
    (start cls registry keeper).Quiet cls :=
  ⟨rfl, nofun⟩

namespace Quiet

variable {m : Machine}

theorem call (hcls : cls.Admissible) (h : m.Quiet cls) (name descriptor : String)
    {args : List Value} (hargs : ∀ v ∈ args, v.Plain) :
    (m.call name descriptor args).2.Quiet cls ∧
      (m.call name descriptor args).2.world.registry = m.world.registry := by
  unfold Machine.call
  rcases World.Quiet.code h name descriptor with ⟨body, hbody, hcode⟩ | hcode
  · rw [hcode]
    exact Thread.Quiet.run hcls m.budget ⟨Frame.quiet_enter hbody hargs, by simp, h⟩
  · rw [hcode]
    exact ⟨h, rfl⟩

theorem startClass (hcls : cls.Admissible) (h : m.Quiet cls) :
    m.startClass.2.Quiet cls ∧ m.startClass.2.world.registry = m.world.registry := by
  have hstarted : ({ m with initialized := true } : Machine).Quiet cls := h
  unfold Machine.startClass
  split
  · exact ⟨h, rfl⟩
  · dsimp only
    split
    · exact hstarted.call hcls _ _ (by simp)
    · exact ⟨h, rfl⟩

/-- Calls change nothing in the registry. -/
theorem invoke (hcls : cls.Admissible) (h : m.Quiet cls) (c : Call) :
    (m.invoke c.name c.descriptor c.args).2.Quiet cls ∧
      (m.invoke c.name c.descriptor c.args).2.world.registry = m.world.registry := by
  have hstart := h.startClass hcls
  unfold Machine.invoke
  generalize m.startClass = started at hstart
  obtain ⟨result, after⟩ := started
  cases result with
  | error fault => exact hstart
  | ok =>
      obtain ⟨hquiet, hregistry⟩ := hstart.1.call hcls c.name c.descriptor c.plain_args
      exact ⟨hquiet, hregistry.trans hstart.2⟩

end Quiet

end Machine

end BytecodeCoverage
