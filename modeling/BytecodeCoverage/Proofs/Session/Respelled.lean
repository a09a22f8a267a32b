import BytecodeCoverage.Proofs.Machine.Respelled
import BytecodeCoverage.Proofs.Probe.Respelled
import BytecodeCoverage.Proofs.Scan.Respelled

/-!
# Instrumenting respelled classes

Two spellings of a class have the same scans, so the same slots are handed out and the same probes
are put in, and what becomes of them are two spellings of one class.  These do the same on the same
calls.

**Main definitions.**
* `ClassFile.SameRuns`: classes that no calls tell apart.
* `Instrumented.SameRuns`: outcomes of the same kind, with such classes.
* `ClassFile.setInstruction`: another instruction in the code of a method.

**Results.**
* `ClassFile.Respelled.withProbes`: both spellings of a class with their probes.
* `Session.instrument_respelled`: instrumenting both spellings of a class.
* `Session.instrument_lookupSwitch`: a table switch may be written as a lookup switch.
-/

namespace BytecodeCoverage

/-! ## Scanning -/

/-- A scanned method in two spellings. -/
structure ScannedMethod.Respelled (m m' : ScannedMethod) : Prop where
  index : m'.index = m.index
  signature : m'.signature = m.signature
  scan : m'.scan = m.scan
  body : m.body.Respelled m'.body

namespace Method.Respelled

variable {method method' : Method}

theorem signature_eq (h : method.Respelled method') : method'.signature = method.signature := by
  rw [Method.signature, h.name, h.descriptor, Method.signature]

theorem isInitializer_eq (h : method.Respelled method') :
    method'.isInitializer = method.isInitializer := by
  rw [Method.isInitializer, h.name, Method.isInitializer]

/-- Both spellings of a method get records, or neither does. -/
theorem eligible_eq (h : method.Respelled method') (options : Options) :
    options.eligible method' = options.eligible method := by
  have hcode : method'.body.isSome = method.body.isSome := by
    have hbody := h.body
    generalize method.body = body at hbody
    generalize method'.body = body' at hbody
    cases hbody <;> rfl
  simp only [Options.eligible, Method.isBridge, Method.isSynthetic, Method.isLambda, h.access,
    h.name, hcode]

end Method.Respelled

/-- What comes of scanning both spellings: a defect, or the same. -/
inductive ScanRespelled :
    Except Body.Defect (List ScannedMethod) → Except Body.Defect (List ScannedMethod) → Prop
  | error (defect defect' : Body.Defect) : ScanRespelled (.error defect) (.error defect')
  | ok {scanned scanned' : List ScannedMethod} :
      List.Forall₂ ScannedMethod.Respelled scanned scanned' →
      ScanRespelled (.ok scanned) (.ok scanned')

namespace ClassFile

variable {cls cls' : ClassFile}

/-- Scanning both spellings of the methods. -/
theorem scanFrom_respelled (h : cls.Respelled cls') (options : Options) (filters : List Filter)
    {methods methods' : List Method} (hmethods : List.Forall₂ Method.Respelled methods methods')
    (index : Nat) :
    ScanRespelled (cls.scanFrom options filters index methods)
      (cls'.scanFrom options filters index methods') := by
  induction hmethods generalizing index with
  | nil => exact .ok .nil
  | @cons m m' rest rest' hm _ ih =>
      have hlater := ih (index + 1)
      have hbodies : Option.Rel Body.Respelled (m.body.filter fun _ => options.eligible m)
          (m'.body.filter fun _ => options.eligible m') := by
        have hbody := hm.body
        rw [hm.eligible_eq options]
        generalize m.body = body at hbody
        generalize m'.body = body' at hbody
        cases hbody with
        | none => exact .none
        | some hbody => cases options.eligible m <;> simp [Option.filter, hbody]
      unfold scanFrom
      generalize cls.scanFrom options filters (index + 1) rest = others at hlater
      generalize cls'.scanFrom options filters (index + 1) rest' = others' at hlater
      generalize m.body.filter (fun _ => options.eligible m) = found at hbodies
      generalize m'.body.filter (fun _ => options.eligible m') = found' at hbodies
      cases hbodies with
      | none => exact hlater
      | @some body body' hbody =>
          have hscan : options.scan filters ⟨cls', m'⟩ body' =
              options.scan filters ⟨cls, m⟩ body :=
            options.scan_respelled filters ⟨h, hm⟩ hbody
          have hcheck : body'.check = .ok () ↔ body.check = .ok () := by
            rw [Body.check_eq_ok, Body.check_eq_ok, hbody.wellFormed_iff]
          simp only [hscan]
          cases hfirst : body.check with
          | error defect =>
              cases hsecond : body'.check with
              | error defect' => exact .error _ _
              | ok => cases hfirst.symm.trans (hcheck.1 hsecond)
          | ok =>
              rw [hcheck.2 hfirst]
              cases hlater with
              | error => exact .error _ _
              | ok hrest =>
                  simp only [bind, Except.bind]
                  cases (options.scan filters ⟨cls, m⟩ body).isEmpty with
                  | true => exact .ok hrest
                  | false => exact .ok (.cons ⟨rfl, hm.signature_eq, rfl, hbody⟩ hrest)

/-! ## Probes -/

/-- Both spellings get the same record and the same slots. -/
theorem layOut_respelled (count : Bool) {scanned scanned' : List ScannedMethod}
    (h : List.Forall₂ ScannedMethod.Respelled scanned scanned') (record : ClassRecord) :
    (layOut count scanned' record).1 = (layOut count scanned record).1 ∧
      List.Forall₂ (fun e e' => e.1.Respelled e'.1 ∧ e'.2 = e.2) (layOut count scanned record).2
        (layOut count scanned' record).2 := by
  induction h generalizing record with
  | nil => exact ⟨rfl, .nil⟩
  | cons hm _ ih =>
      simp only [layOut, hm.signature, hm.scan]
      obtain ⟨hrecord, hothers⟩ := ih (record.assign _ _ count).1
      exact ⟨hrecord, .cons ⟨hm, rfl⟩ hothers⟩

section Probing

variable {methods methods' : List Method}

theorem probeMethod_respelled (style : ProbeStyle)
    (h : List.Forall₂ Method.Respelled methods methods') {e e' : ScannedMethod × MethodSlots}
    (he : e.1.Respelled e'.1 ∧ e'.2 = e.2) :
    List.Forall₂ Method.Respelled (probeMethod style methods e)
      (probeMethod style methods' e') := by
  obtain ⟨hscanned, hslots⟩ := he
  rw [probeMethod, probeMethod, hscanned.index, hscanned.scan, hslots]
  have hbody := hscanned.body.probed e.1.scan e.2 style
  generalize e.1.index = place
  induction h generalizing place with
  | nil => cases place <;> exact .nil
  | cons hm hrest ih =>
      cases place with
      | zero => exact .cons ⟨hm.name, hm.descriptor, hm.access, .some hbody⟩ hrest
      | succ place => exact .cons hm (ih place)

theorem probeMethods_respelled (style : ProbeStyle)
    (h : List.Forall₂ Method.Respelled methods methods')
    {laidOut laidOut' : List (ScannedMethod × MethodSlots)}
    (hlaidOut : List.Forall₂ (fun e e' => e.1.Respelled e'.1 ∧ e'.2 = e.2) laidOut laidOut') :
    List.Forall₂ Method.Respelled (laidOut.foldl (probeMethod style) methods)
      (laidOut'.foldl (probeMethod style) methods') := by
  induction hlaidOut generalizing methods methods' with
  | nil => exact h
  | cons he _ ih => exact ih (probeMethod_respelled style h he)

/-- The class initializer is extended in both spellings, or there is none. -/
theorem extendInitializer?_respelled (c : Counters)
    (h : List.Forall₂ Method.Respelled methods methods') :
    Option.Rel (List.Forall₂ Method.Respelled) (c.extendInitializer? methods)
      (c.extendInitializer? methods') := by
  induction h with
  | nil => exact .none
  | @cons m m' rest rest' hm hrest ih =>
      unfold Counters.extendInitializer?
      rw [hm.isInitializer_eq]
      cases m.isInitializer with
      | true =>
          have hbody := hm.body
          simp only [if_true]
          cases hfound : m.body with
          | none =>
              rw [hfound] at hbody
              generalize m'.body = body' at hbody
              cases hbody
              exact .none
          | some body =>
              rw [hfound] at hbody
              generalize m'.body = found' at hbody
              cases hbody with | some hbody => ?_
              refine .some (.cons ⟨hm.name, hm.descriptor, hm.access, .some ?_⟩ hrest)
              exact ⟨List.rel_append (List.forall₂_same.2 fun insn _ => .same insn) hbody.code,
                hbody.tryRanges, by simp only [Counters.prependFill, hbody.maxStack],
                hbody.maxLocals, hbody.nextLabel⟩
      | false =>
          simp only [Bool.false_eq_true, if_false]
          generalize c.extendInitializer? rest = more at ih
          generalize c.extendInitializer? rest' = more' at ih
          cases ih with
          | none => exact .none
          | some ih => exact .some (.cons hm ih)

end Probing

/-- The members that the counters need are added to both spellings. -/
theorem Respelled.prepared (c : Counters) (h : cls.Respelled cls') :
    (c.prepare cls).Respelled (c.prepare cls') := by
  have hfields : cls'.fields = cls.fields := by rw [h.same]
  have hadded := List.rel_append h.methods
    (List.Forall₂.cons (.refl c.accessor) List.Forall₂.nil)
  have hextended := extendInitializer?_respelled c hadded
  unfold Counters.prepare
  cases c.strategy with
  | localVar | constant => exact h
  | field =>
      dsimp only
      generalize c.extendInitializer? (cls.methods ++ [c.accessor]) = extended at hextended
      generalize c.extendInitializer? (cls'.methods ++ [c.accessor]) = extended' at hextended
      cases hextended with
      | none =>
          refine ⟨List.rel_append hadded (List.Forall₂.cons (.refl c.initializer) .nil), ?_⟩
          rw [h.same]
      | some hextended =>
          refine ⟨hextended, ?_⟩
          rw [h.same]

/-- Both spellings of a class with their probes. -/
theorem Respelled.withProbes (h : cls.Respelled cls') (style : ProbeStyle)
    {laidOut laidOut' : List (ScannedMethod × MethodSlots)}
    (hlaidOut : List.Forall₂ (fun e e' => e.1.Respelled e'.1 ∧ e'.2 = e.2) laidOut laidOut') :
    (cls.withProbes style laidOut).Respelled (cls'.withProbes style laidOut') := by
  unfold ClassFile.withProbes
  refine Respelled.prepared style.counters ⟨probeMethods_respelled style h.methods hlaidOut, ?_⟩
  rw [h.same]

end ClassFile

/-! ## Instrumenting -/

/-- Classes that no calls tell apart: the results of the calls are the same, and so are the counters
afterwards. -/
def ClassFile.SameRuns (cls cls' : ClassFile) : Prop :=
  ∀ (registry : Registry) (keeper : Nat) (calls : List Machine.Call),
    ((Machine.start cls' registry keeper).invokeAll calls).1 =
        ((Machine.start cls registry keeper).invokeAll calls).1 ∧
      ((Machine.start cls' registry keeper).invokeAll calls).2.world.registry =
        ((Machine.start cls registry keeper).invokeAll calls).2.world.registry

/-- Outcomes of the same kind; classes with probes do the same. -/
inductive Instrumented.SameRuns : Instrumented → Instrumented → Prop
  | probed {cls cls' : ClassFile} : cls.SameRuns cls' → SameRuns (.probed cls) (.probed cls')
  | skipped (reason : SkipReason) : SameRuns (.skipped reason) (.skipped reason)
  | unchanged : SameRuns .unchanged .unchanged

namespace ClassFile.Respelled

variable {cls cls' : ClassFile}

theorem sameRuns (h : cls.Respelled cls') : cls.SameRuns cls' := fun registry keeper calls =>
  (Machine.respelled_start h registry keeper).invokeAll calls

theorem isInstrumented_eq (h : cls.Respelled cls') : cls'.isInstrumented = cls.isInstrumented := by
  have hfield : cls'.field? Entry.field = cls.field? Entry.field := by rw [h.same]; rfl
  have hmethods := h.methods
  rw [isInstrumented, isInstrumented, hfield]
  congr 1
  generalize cls.methods = methods at hmethods
  generalize cls'.methods = methods' at hmethods
  induction hmethods with
  | nil => rfl
  | cons hm _ ih => rw [List.any_cons, List.any_cons, hm.name, ih]

end ClassFile.Respelled

/-- Both spellings of a class come to the same, with the same record. -/
theorem Session.instrument_respelled (s : Session) (filters : List Filter) {cls cls' : ClassFile}
    (h : cls.Respelled cls') :
    (s.instrument filters cls').2 = (s.instrument filters cls).2 ∧
      (s.instrument filters cls).1.SameRuns (s.instrument filters cls').1 := by
  have hblank : cls'.blankRecord = cls.blankRecord := by rw [h.same]; rfl
  have hstyle : s.options.probeStyle cls' = s.options.probeStyle cls := by rw [h.same]; rfl
  have hscanned := ClassFile.scanFrom_respelled h s.options filters h.methods 0
  unfold instrument ClassFile.scanAll
  rw [h.isInstrumented_eq, hblank, hstyle]
  cases cls.isInstrumented with
  | true => exact ⟨rfl, .skipped _⟩
  | false =>
      simp only [Bool.false_eq_true, if_false]
      generalize cls.scanFrom s.options filters 0 cls.methods = found at hscanned
      generalize cls'.scanFrom s.options filters 0 cls'.methods = found' at hscanned
      cases hscanned with
      | error => exact ⟨rfl, .unchanged⟩
      | @ok scanned scanned' hscanned =>
          obtain ⟨hrecord, hlaidOut⟩ :=
            ClassFile.layOut_respelled s.options.instructions hscanned cls.blankRecord
          simp only [hrecord]
          split
          · exact ⟨rfl, .skipped _⟩
          · exact ⟨rfl, .probed (h.withProbes _ hlaidOut).sameRuns⟩

/-! ## One switch -/

/-- The class with another instruction at position `i` of the code of the method at `place`. -/
def ClassFile.setInstruction (cls : ClassFile) (place i : Nat) (insn : Instruction) : ClassFile :=
  { cls with
    methods := cls.methods.modify place fun method =>
      { method with
        body := method.body.map fun body => { body with code := body.code.set i insn } } }

/-- Writing a table switch of a body without defects as a lookup switch is a respelling. -/
theorem ClassFile.respelled_setInstruction {cls : ClassFile} {place i : Nat} {method : Method}
    {body : Body} {low high : Int32} {otherwise : Label} {targets : List Label}
    (hmethod : cls.methods[place]? = some method) (hbody : method.body = some body)
    (hcheck : body.check = .ok ())
    (hinsn : body.code[i]? = some (.tableSwitch low high otherwise targets)) :
    cls.Respelled
      (cls.setInstruction place i (.lookupSwitch otherwise (keyRange low high) targets)) := by
  have hshaped := (Body.check_eq_ok.1 hcheck).shaped _ (List.mem_of_getElem? hinsn)
  have hset : List.Forall₂ Instruction.Respelled body.code
      (body.code.set i (.lookupSwitch otherwise (keyRange low high) targets)) := by
    generalize body.code = code at hinsn
    induction code generalizing i with
    | nil => cases hinsn
    | cons first rest ih =>
        cases i with
        | zero =>
            obtain rfl : first = _ := by simpa using hinsn
            exact .cons (.switch hshaped) (List.forall₂_same.2 fun insn _ => .same insn)
        | succ i => exact .cons (.same first) (ih (by simpa using hinsn))
  refine ⟨?_, rfl⟩
  unfold setInstruction
  generalize cls.methods = methods at hmethod
  dsimp only
  induction methods generalizing place with
  | nil => cases hmethod
  | cons first rest ih =>
      cases place with
      | zero =>
          obtain rfl : first = method := by simpa using hmethod
          refine .cons ⟨rfl, rfl, rfl, ?_⟩ (List.forall₂_same.2 fun m _ => .refl m)
          simp only [hbody, Option.map_some]
          exact .some ⟨hset, rfl, rfl, rfl, rfl⟩
      | succ place => exact .cons (.refl first) (ih (by simpa using hmethod))

/-- A table switch may as well be written as the lookup switch with the same keys, targets and
default: instrumenting comes to the same with the same record, and neither the classes nor the
classes with probes are told apart by calls. -/
theorem Session.instrument_lookupSwitch {cls : ClassFile} {place i : Nat} {method : Method}
    {body : Body} {low high : Int32} {otherwise : Label} {targets : List Label}
    (hmethod : cls.methods[place]? = some method) (hbody : method.body = some body)
    (hcheck : body.check = .ok ())
    (hinsn : body.code[i]? = some (.tableSwitch low high otherwise targets))
    (s : Session) (filters : List Filter) :
    let cls' := cls.setInstruction place i (.lookupSwitch otherwise (keyRange low high) targets)
    (s.instrument filters cls').2 = (s.instrument filters cls).2 ∧
      (s.instrument filters cls).1.SameRuns (s.instrument filters cls').1 ∧
      cls.SameRuns cls' := by
  have h := ClassFile.respelled_setInstruction hmethod hbody hcheck hinsn
  obtain ⟨hsession, houtcome⟩ := s.instrument_respelled filters h
  exact ⟨hsession, houtcome, h.sameRuns⟩

/-! ## A switch at the ends of the integers -/

namespace Choosing

/-- A table switch over the two greatest integers. -/
def body : Body :=
  .ofParts [.line 1, .localVar .iload 0,
    .tableSwitch 0x7ffffffe 0x7fffffff ⟨0⟩ [⟨1⟩, ⟨0⟩], .label ⟨1⟩, .line 2, .simple .iconst1,
    .simple .ireturn, .label ⟨0⟩, .line 3, .simple .iconst0, .simple .ireturn] [] 1 1

def method : Method where
  name := "choose"
  descriptor := "(I)I"
  access := ⟨0x9⟩
  body := some body

def cls : ClassFile where
  name := "demo/Choosing"
  superName := some "java/lang/Object"
  access := ⟨0x21⟩
  major := 52
  sourceFile := none
  sourceDebug := none
  fields := []
  methods := [method]

/-- The class with a lookup switch. -/
def respelled : ClassFile :=
  cls.setInstruction 0 2 (.lookupSwitch ⟨0⟩ [0x7ffffffe, 0x7fffffff] [⟨1⟩, ⟨0⟩])

end Choosing

theorem Session.instrument_lookupSwitch_choosing :
    Choosing.body.check = .ok () ∧
    Choosing.body.code[2]? = some (.tableSwitch 0x7ffffffe 0x7fffffff ⟨0⟩ [⟨1⟩, ⟨0⟩]) ∧
    (({} : Session).instrument Filter.standard Choosing.respelled).2 =
      (({} : Session).instrument Filter.standard Choosing.cls).2 ∧
    Choosing.cls.SameRuns Choosing.respelled := by
  have hcheck : Choosing.body.check = .ok () := by with_unfolding_all rfl
  have hkeys : keyRange 0x7ffffffe 0x7fffffff = [0x7ffffffe, 0x7fffffff] := by decide
  have hinsn : Choosing.body.code[2]? =
      some (.tableSwitch 0x7ffffffe 0x7fffffff ⟨0⟩ [⟨1⟩, ⟨0⟩]) := rfl
  have hmethod : Choosing.cls.methods[0]? = some Choosing.method := rfl
  have h := Session.instrument_lookupSwitch hmethod rfl hcheck hinsn {} Filter.standard
  rw [hkeys] at h
  exact ⟨hcheck, hinsn, h.1, h.2.2⟩

end BytecodeCoverage
