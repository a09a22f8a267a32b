import BytecodeCoverage.Proofs.Session.History

/-!
# Room for probes

The probes of a class count in an array that is found by the name of the class.  Its length is fixed
when it is first asked for.  So if a class is rewritten a second time, its probes have the array of
the first version if that version has been run, and a new array otherwise.

**Main definitions.**
* `CountsIn`, `TracesIn`: the slots of the probes of methods.

**Results.**
* `Session.room_of_latest`: whether there is room for the probes of the latest version of a class.
* `Session.crowded_sign`: a version with more slots than its array has.
-/

namespace BytecodeCoverage

open Machine

/-- A probe of the laid out methods counts in the slot. -/
def CountsIn (laidOut : List (ScannedMethod × MethodSlots)) (slot : Nat) : Prop :=
  ∃ e ∈ laidOut, ∃ site, e.2.slot? site = some slot

/-- The probe of a line counts in the slot, and sets the flag there if tests are traced. -/
def TracesIn (laidOut : List (ScannedMethod × MethodSlots)) (slot : Nat) : Prop :=
  ∃ e ∈ laidOut, ∃ number, e.2.slot? (.line number) = some slot

theorem TracesIn.countsIn {laidOut : List (ScannedMethod × MethodSlots)} {slot : Nat}
    (h : TracesIn laidOut slot) : CountsIn laidOut slot := by
  obtain ⟨e, he, number, hslot⟩ := h
  exact ⟨e, he, .line number, hslot⟩

/-- Slots that are all declared have room unless something shorter was made before. -/
theorem lt_getD_iff {α : Type} {made : Option (List α)} {slots : Nat} {p : Nat → Prop}
    (hslots : ∀ slot, p slot → slot < slots) :
    (∀ slot, p slot → slot < (made.map List.length).getD slots) ↔
      ∀ a, made = some a → ∀ slot, p slot → slot < a.length := by
  cases made with
  | none => simpa using hslots
  | some a => simp

namespace Scene

/-- Once the slots of a class have been declared, its lengths are those of what had been made by
then, as long as the class is not rewritten. -/
theorem Grows.lengths_of_declared {scene late : Scene} {later : List Version}
    (h : Grows later scene late) {registry : Registry} {name : String} {slots : Nat}
    (hdeclared : scene.registry = registry.declare name slots)
    (hlatest : ∀ v ∈ later, v.original.name ≠ name) :
    (late.registry.hitsFor name).length =
        ((registry.lookup? name).map List.length).getD slots ∧
      (late.registry.traceFor name).length =
        ((registry.tracker.mask? name).map List.length).getD slots := by
  constructor
  · rw [h.hits name hlatest, hdeclared, Registry.length_hitsFor_declare, if_pos rfl]
  · rw [h.trace name hlatest, hdeclared, Registry.length_traceFor_declare, if_pos rfl]

end Scene

/-- In the course of a history a class is rewritten, and then not rewritten again.  On request, its
array and its mask have the lengths that they got when they were made: by the time the class was
rewritten, or else as many as the class then got slots.  So there is room for all its probes if and
only if there was room for them in the array and in the mask that had been made by then, if any. -/
theorem Session.room_of_latest {options : Options} {filters : List Filter}
    {before after : List Move} {early late : Scene}
    (hearly : (Scene.start options).play filters before = early) {cls cls' : ClassFile}
    {s' : Session} (h : early.session.instrument filters cls = (.probed cls', s'))
    (hlate : early.play filters (.instrument cls :: after) = late) {later : List Version}
    (hversions : late.versions = early.versions ++ ⟨cls, cls'⟩ :: later)
    (hlatest : ∀ v ∈ later, v.original.name ≠ cls.name) :
    ∃ scanned record laidOut,
      cls.scanAll options filters = .ok scanned ∧
      ClassFile.layOut options.instructions scanned cls.blankRecord = (record, laidOut) ∧
      cls' = cls.withProbes (options.probeStyle cls) laidOut ∧
      s'.record? cls.name = some record ∧
      (late.registry.hitsFor cls.name).length =
        ((early.registry.lookup? cls.name).map List.length).getD record.slotCount ∧
      (late.registry.traceFor cls.name).length =
        ((early.registry.tracker.mask? cls.name).map List.length).getD record.slotCount ∧
      ((∀ slot, CountsIn laidOut slot → slot < (late.registry.hitsFor cls.name).length) ↔
        ∀ hits, early.registry.lookup? cls.name = some hits →
          ∀ slot, CountsIn laidOut slot → slot < hits.length) ∧
      ((∀ slot, TracesIn laidOut slot → slot < (late.registry.traceFor cls.name).length) ↔
        ∀ mask, early.registry.tracker.mask? cls.name = some mask →
          ∀ slot, TracesIn laidOut slot → slot < mask.length) := by
  obtain ⟨_, hbefore⟩ := (Scene.start options).grows_play filters before
  have hoptions : early.session.options = options := by
    rw [← hearly]
    exact hbefore.options
  obtain ⟨scanned, record, laidOut, meanings, hmade, hlines, hcls', rfl⟩ := exists_of_probed h
  rw [hoptions] at hmade hcls'
  obtain ⟨more, hafter⟩ := (early.instrument filters cls).grows_play filters after
  have hscene := Scene.instrument_eq h
  have hmore : more = later := by
    have hall := hafter.versions
    rw [show (early.instrument filters cls).play filters after = late from hlate, hversions,
      hscene, List.append_assoc] at hall
    exact (List.cons.inj (List.append_cancel_left hall)).2.symm
  rw [show (early.instrument filters cls).play filters after = late from hlate, hmore,
    hscene] at hafter
  obtain ⟨hhits, htrace⟩ :=
    hafter.lengths_of_declared (hmade.registry_register hlines early.session) hlatest
  have hslots : ∀ slot, CountsIn laidOut slot → slot < record.slotCount := by
    rintro slot ⟨e, he, site, hslot⟩
    exact hmade.slot_lt he hslot
  refine ⟨scanned, record, laidOut, hmade.scan, hmade.layOut, hcls', ?_, hhits, htrace, ?_, ?_⟩
  · rw [record?, register, hmade.name_record]
    exact SortedMap.get?_insert_self _ _ _
  · rw [hhits]
    exact lt_getD_iff hslots
  · rw [htrace]
    exact lt_getD_iff fun slot hslot => hslots slot hslot.countsIn

/-! ## A class that is rewritten before and after it is run -/

namespace Sign

theorem instrument_formerIdle : formerIdle.session.instrument [] cls =
    (.probed probed, formerIdle.session.register laid.1) :=
  instrument_cls_of (by rw [formerIdle_eq]; rfl)

/-- What happens after the class has been rewritten again. -/
def rerun : List Move :=
  [.start 1 1, .invoke 0 call, .reset]

theorem play_rerun : formerIdle.play [] (.instrument cls :: rerun) =
    ({ formerIdle with
      session := formerIdle.session.register laid.1
      versions := formerIdle.versions ++ [⟨cls, probed⟩] } : Scene).play [] rerun := by
  rw [← Scene.instrument_eq instrument_formerIdle]
  rfl

theorem versions_rerun : (formerIdle.play [] (.instrument cls :: rerun)).versions =
    formerIdle.versions ++ ⟨cls, probed⟩ :: [] := by
  rw [play_rerun, formerIdle_eq]
  rfl

theorem length_rerun :
    ((formerIdle.play [] (.instrument cls :: rerun)).registry.hitsFor "demo/Sign").length = 3 := by
  rw [play_rerun, formerIdle_eq]
  with_unfolding_all rfl

end Sign

/-- The array is made for the second version if the first one has not been run. -/
theorem Session.room_of_latest_sign :
    (Sign.formerIdle.play [] (.instrument Sign.cls :: Sign.rerun)).versions =
        [⟨Sign.former, Sign.formerProbed⟩, ⟨Sign.cls, Sign.probed⟩] ∧
      ∃ laidOut, Sign.probed = Sign.cls.withProbes (({} : Options).probeStyle Sign.cls) laidOut ∧
        ∀ slot, CountsIn laidOut slot → slot < 3 := by
  refine ⟨by rw [Sign.versions_rerun, Sign.formerIdle_eq]; rfl, ?_⟩
  have hearly : (Scene.start {}).play [] [.instrument Sign.former] = Sign.formerIdle := rfl
  obtain ⟨_, _, laidOut, -, -, hprobed, -, -, -, hroom, -⟩ :=
    room_of_latest hearly Sign.instrument_formerIdle rfl Sign.versions_rerun (by simp)
  refine ⟨laidOut, hprobed, ?_⟩
  have hlength : ((Sign.formerIdle.play [] (.instrument Sign.cls :: Sign.rerun)).registry.hitsFor
      Sign.cls.name).length = 3 := Sign.length_rerun
  rw [← hlength]
  refine hroom.2 fun hits hhits => ?_
  rw [Sign.formerIdle_eq] at hhits
  cases hhits

/-- Once the first version has been run, the array stays too short for the second one, whose probes
then fail. -/
theorem Session.crowded_sign :
    Sign.formerRun.session.instrument [] Sign.cls =
        (.probed Sign.probed, Sign.formerRun.session.register Sign.laid.1) ∧
      (Sign.formerRun.play [] [.instrument Sign.cls]).versions =
        Sign.formerRun.versions ++ [⟨Sign.cls, Sign.probed⟩] ∧
      Sign.probed = Sign.cls.withProbes (({} : Options).probeStyle Sign.cls)
        [(Sign.scanned, Sign.laid.2)] ∧
      CountsIn [(Sign.scanned, Sign.laid.2)] 2 ∧
      ((Sign.formerRun.play [] [.instrument Sign.cls]).registry.hitsFor "demo/Sign").length = 1 ∧
      ((Machine.start Sign.probed (Sign.formerRun.play [] [.instrument Sign.cls]).registry 1).invoke
        "negative" "(I)I" [5]).1 = .error .beyondEnd := by
  have hinstrument := Sign.instrument_cls_of Sign.options_formerRun
  have hplay : Sign.formerRun.play [] [.instrument Sign.cls] = _ := Scene.instrument_eq hinstrument
  refine ⟨hinstrument, by rw [hplay], rfl, ⟨_, List.mem_singleton_self _, .notTaken 2, ?_⟩, ?_, ?_⟩
  · with_unfolding_all rfl
  · rw [hplay, Sign.formerRun_eq, Sign.formerIdle_eq]
    with_unfolding_all rfl
  · rw [hplay, Sign.formerRun_eq, Sign.formerIdle_eq]
    with_unfolding_all rfl

end BytecodeCoverage
