import BytecodeCoverage.Proofs.Machine.Usage
import BytecodeCoverage.Proofs.Session.Several

/-!
# Histories of a session

A session is used over time: classes are instrumented, the same name perhaps several times with
different code, machines are started for whatever has been rewritten, methods are called on them, and
counters are set back to zero.  A scene is what there is at one time.  It also remembers what the
rewritten classes do when they are called: the events of the classes as they were, on the same calls.

**Main definitions.**
* `Version`: a class and what it was rewritten to.
* `Scene`: a session with everything that was rewritten and all machines.
* `Move`, `Scene.move`, `Scene.play`: what happens to a scene.

* `Scene.Effect`: what a move can do.
* `Scene.Grows`: what a history leaves alone.

**Results.**
* `Scene.effect_move`, `Scene.grows_play`: these are all effects, and all histories are like this.
-/

namespace BytecodeCoverage

open Machine

/-- A class and what it was rewritten to. -/
structure Version where
  original : ClassFile
  probed : ClassFile

/-- A machine for a version, and one for the class as it was that gets the same calls. -/
structure Runner where
  version : Version
  machine : Machine
  plain : Machine

namespace Runner

/-- New machines for a version. -/
def start (v : Version) (registry : Registry) (keeper : Nat) : Runner where
  version := v
  machine := .start v.probed registry keeper
  plain := .start v.original {} 0

/-- Calls a method; the machine finds the registry as it is now. -/
def invoke (r : Runner) (registry : Registry) (c : Call) :
    Except MachineFault (Option Int32) × Runner :=
  let (result, machine) := (r.machine.on registry).invoke c.name c.descriptor c.args
  (result, { r with machine, plain := (r.plain.invoke c.name c.descriptor c.args).2 })

end Runner

/-- A session at some time: what was rewritten, the first version first, the machines that were
started, and what the versions have done. -/
structure Scene where
  session : Session
  versions : List Version := []
  runners : List Runner := []
  done : List (Version × Event) := []

/-- Something that happens in a session. -/
inductive Move
  | instrument (cls : ClassFile)
  /-- A machine is started for the version at a place. -/
  | start (place keeper : Nat)
  /-- A method is called on the machine at a place. -/
  | invoke (place : Nat) (c : Call)
  | reset
  | resetClass (className : String)

/-- The version that instrumenting a class gives, if the class was rewritten. -/
def Instrumented.versions (cls : ClassFile) : Instrumented → List Version
  | .probed cls' => [⟨cls, cls'⟩]
  | _ => []

namespace Scene

/-- A new session. -/
def start (options : Options) : Scene where
  session := { options }

/-- The registry as it is now. -/
def registry (scene : Scene) : Registry :=
  scene.session.registry

/-- The scene with another registry. -/
def withRegistry (scene : Scene) (registry : Registry) : Scene :=
  { scene with session := { scene.session with registry } }

/-- A class is instrumented. -/
def instrument (filters : List Filter) (scene : Scene) (cls : ClassFile) : Scene :=
  let result := scene.session.instrument filters cls
  { scene with session := result.2, versions := scene.versions ++ result.1.versions cls }

/-- A machine is started. -/
def startRunner (scene : Scene) (v : Version) (keeper : Nat) : Scene :=
  { scene with runners := scene.runners ++ [.start v scene.registry keeper] }

/-- A method is called on a machine that has its place among the others. -/
def call (scene : Scene) (place : Nat) (r : Runner) (c : Call) : Scene :=
  let after := (r.invoke scene.registry c).2
  { scene.withRegistry after.machine.world.registry with
    runners := scene.runners.set place after
    done := scene.done ++ (r.plain.invokeEvents c).map (Prod.mk r.version) }

/-- What becomes of a scene.  Nothing happens if there is no such version or machine. -/
def move (filters : List Filter) (scene : Scene) : Move → Scene
  | .instrument cls => scene.instrument filters cls
  | .start place keeper =>
      match scene.versions[place]? with
      | some v => scene.startRunner v keeper
      | none => scene
  | .invoke place c =>
      match scene.runners[place]? with
      | some r => scene.call place r c
      | none => scene
  | .reset => scene.withRegistry scene.registry.reset
  | .resetClass className => scene.withRegistry (scene.registry.resetClass className)

/-- What becomes of a scene in the course of a history. -/
def play (filters : List Filter) (scene : Scene) (history : List Move) : Scene :=
  history.foldl (move filters) scene

/-! ## What a move can do -/

/-- What a move makes of a scene.  A class gets probes, or only a record without lines. -/
inductive Effect (filters : List Filter) (scene : Scene) : Move → Scene → Prop
  | none (m : Move) : Effect filters scene m scene
  | rewritten {cls : ClassFile} {scanned : List ScannedMethod} {record : ClassRecord}
      {laidOut : List (ScannedMethod × MethodSlots)} {meanings : List Occurrence} :
      cls.Made scene.session.options filters scanned record laidOut meanings →
      record.lines.isEmpty = false →
      Effect filters scene (.instrument cls)
        { scene with
          session := scene.session.register record
          versions := scene.versions ++
            [⟨cls, cls.withProbes (scene.session.options.probeStyle cls) laidOut⟩] }
  | skipped {cls : ClassFile} {scanned : List ScannedMethod} {record : ClassRecord}
      {laidOut : List (ScannedMethod × MethodSlots)} {meanings : List Occurrence} :
      cls.Made scene.session.options filters scanned record laidOut meanings →
      record.lines.isEmpty = true →
      Effect filters scene (.instrument cls)
        { scene with session := scene.session.register record }
  | started {v : Version} (place keeper : Nat) : v ∈ scene.versions →
      Effect filters scene (.start place keeper) (scene.startRunner v keeper)
  | called {r : Runner} (place : Nat) (c : Call) : scene.runners[place]? = some r →
      Effect filters scene (.invoke place c) (scene.call place r c)
  | reset : Effect filters scene .reset (scene.withRegistry scene.registry.reset)
  | resetClass (className : String) :
      Effect filters scene (.resetClass className)
        (scene.withRegistry (scene.registry.resetClass className))

theorem effect_instrument (filters : List Filter) (scene : Scene) (cls : ClassFile) :
    scene.Effect filters (.instrument cls) (scene.instrument filters cls) := by
  have hsame : scene.Effect filters (.instrument cls)
      { scene with versions := scene.versions ++ [] } := by
    rw [List.append_nil]
    exact .none _
  have hgives := scene.session.gives_instrument filters cls
  unfold instrument
  generalize scene.session.instrument filters cls = result at hgives
  cases hgives with
  | marked | defective => exact hsame
  | lineless hmade hlines =>
      simp only [Instrumented.versions, List.append_nil]
      exact .skipped hmade hlines
  | probed hmade hlines => exact .rewritten hmade hlines

theorem effect_move (filters : List Filter) (scene : Scene) (m : Move) :
    scene.Effect filters m (scene.move filters m) := by
  cases m with
  | instrument cls => exact effect_instrument filters scene cls
  | start place keeper =>
      dsimp only [move]
      cases hv : scene.versions[place]? with
      | none => exact .none _
      | some v => exact .started place keeper (List.mem_of_getElem? hv)
  | invoke place c =>
      dsimp only [move]
      cases hr : scene.runners[place]? with
      | none => exact .none _
      | some r => exact .called place c hr
  | reset => exact .reset
  | resetClass className => exact .resetClass className

/-! ## What a history leaves alone -/

/-- The second scene comes later than the first, with further versions.  The arrays and masks of
other classes are as long as they would have been. -/
structure Grows (more : List Version) (scene later : Scene) : Prop where
  options : later.session.options = scene.session.options
  versions : later.versions = scene.versions ++ more
  hits : ∀ name, (∀ v ∈ more, v.original.name ≠ name) →
    (later.registry.hitsFor name).length = (scene.registry.hitsFor name).length
  trace : ∀ name, (∀ v ∈ more, v.original.name ≠ name) →
    (later.registry.traceFor name).length = (scene.registry.traceFor name).length

namespace Grows

variable {scene scene₁ scene₂ : Scene} {a b : List Version}

/-- Using the registry is no growth. -/
theorem of_used (hused : scene.registry.Used scene₁.registry)
    (hoptions : scene₁.session.options = scene.session.options)
    (hversions : scene₁.versions = scene.versions) : Grows [] scene scene₁ where
  options := hoptions
  versions := hversions.trans (List.append_nil _).symm
  hits name _ := hused.hits name
  trace name _ := hused.trace name

theorem refl (scene : Scene) : Grows [] scene scene :=
  .of_used (.refl _) rfl rfl

theorem trans (h₁ : Grows a scene scene₁) (h₂ : Grows b scene₁ scene₂) :
    Grows (a ++ b) scene scene₂ where
  options := h₂.options.trans h₁.options
  versions := by rw [h₂.versions, h₁.versions, List.append_assoc]
  hits name hother := by
    rw [List.forall_mem_append] at hother
    exact (h₂.hits name hother.2).trans (h₁.hits name hother.1)
  trace name hother := by
    rw [List.forall_mem_append] at hother
    exact (h₂.trace name hother.2).trans (h₁.trace name hother.1)

end Grows

theorem Effect.grows {filters : List Filter} {scene later : Scene} {m : Move}
    (h : scene.Effect filters m later) : ∃ more, Grows more scene later := by
  cases h with
  | none => exact ⟨[], .refl scene⟩
  | rewritten hmade hlines =>
      have hregistry := hmade.registry_register hlines scene.session
      refine ⟨_, rfl, rfl, fun name hother => ?_, fun name hother => ?_⟩
      · have hne := hother _ (List.mem_singleton_self _)
        rw [registry, hregistry, Registry.length_hitsFor_declare, if_neg fun heq => hne heq.symm]
        rfl
      · have hne := hother _ (List.mem_singleton_self _)
        rw [registry, hregistry, Registry.length_traceFor_declare, if_neg fun heq => hne heq.symm]
        rfl
  | skipped hmade hlines =>
      refine ⟨[], .of_used ?_ rfl rfl⟩
      simp only [registry, Session.register, hmade.slotCount_eq_zero hlines]
      exact .refl _
  | started => exact ⟨[], .of_used (.refl _) rfl rfl⟩
  | @called r place c hr =>
      exact ⟨[], .of_used ((r.machine.on scene.registry).used_invoke _ _ _) rfl rfl⟩
  | reset => exact ⟨[], .of_used scene.registry.cleared_reset.used rfl rfl⟩
  | resetClass className => exact ⟨[], .of_used (scene.registry.cleared_resetClass className).used rfl rfl⟩

theorem grows_play (filters : List Filter) (scene : Scene) (history : List Move) :
    ∃ more, Grows more scene (scene.play filters history) := by
  induction history generalizing scene with
  | nil => exact ⟨[], .refl scene⟩
  | cons m rest ih =>
      obtain ⟨a, hmove⟩ := (scene.effect_move filters m).grows
      obtain ⟨b, hrest⟩ := ih (scene.move filters m)
      exact ⟨a ++ b, hmove.trans hrest⟩

theorem instrument_eq {filters : List Filter} {scene : Scene} {s' : Session}
    {cls cls' : ClassFile}
    (h : scene.session.instrument filters cls = (.probed cls', s')) :
    scene.instrument filters cls =
      { scene with session := s', versions := scene.versions ++ [⟨cls, cls'⟩] } := by
  simp only [instrument, h]
  rfl

end Scene

/-! ## A class that is rewritten twice -/

namespace Sign

theorem instrument_cls_of {s : Session} (hoptions : s.options = {}) :
    s.instrument [] cls = (.probed probed, s.register laid.1) := by
  have hscan : cls.scanAll s.options [] = .ok [scanned] := by
    rw [hoptions]
    exact scanAll_cls
  have hprobed := Session.instrument_of_kept (by decide) hscan (by rw [hoptions]) kept_scanned rfl
  rw [hoptions] at hprobed
  exact hprobed

/-- The class at an earlier time. -/
def formerBody : Body :=
  .ofParts [.line 7, .simple .iconst0, .simple .ireturn] [] 1 1

def formerMethod : Method :=
  { method with body := some formerBody }

def former : ClassFile :=
  { cls with methods := [formerMethod] }

/-- The method with its scan, which keeps the line. -/
def formerScanned : ScannedMethod :=
  ⟨0, "negative(I)I", formerBody, Options.scan {} [] ⟨former, formerMethod⟩ formerBody⟩

theorem kept_formerScanned : formerScanned.scan.kept = [.line ⟨0, 7, false⟩] :=
  List.mergeSort_of_pairwise (by decide)

/-- The record of the class and the slots of its method. -/
def formerLaid : ClassRecord × MethodSlots :=
  ClassRecord.assignAll formerScanned.signature [.line ⟨0, 7, false⟩] former.blankRecord {}

/-- The class with probes. -/
def formerProbed : ClassFile :=
  former.withProbes (({} : Options).probeStyle former) [(formerScanned, formerLaid.2)]

theorem instrument_former : ({ options := {} } : Session).instrument [] former =
    (.probed formerProbed, ({ options := {} } : Session).register formerLaid.1) :=
  Session.instrument_of_kept (by decide) rfl rfl kept_formerScanned rfl

def call : Call :=
  ⟨"negative", "(I)I", [5]⟩

/-- The session that has rewritten an earlier version. -/
def formerIdle : Scene :=
  (Scene.start {}).play [] [.instrument former]

/-- The session in which that version has been run. -/
def formerRun : Scene :=
  (Scene.start {}).play [] [.instrument former, .start 0 0, .invoke 0 call]

theorem formerIdle_eq : formerIdle =
    { Scene.start {} with
      session := ({ options := {} } : Session).register formerLaid.1
      versions := [⟨former, formerProbed⟩] } :=
  Scene.instrument_eq instrument_former

theorem formerRun_eq : formerRun = formerIdle.play [] [.start 0 0, .invoke 0 call] :=
  rfl

theorem options_formerRun : formerRun.session.options = {} := by
  rw [formerRun_eq, formerIdle_eq]
  rfl

end Sign

end BytecodeCoverage
