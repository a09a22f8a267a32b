import BytecodeCoverage.Proofs.Probe.Placed
import BytecodeCoverage.Proofs.Session.Behaviour

/-!
# What instrumenting leaves alone

A class that gets probes keeps its members in their places, with their names, descriptors and
flags, and the members that its counters need come after them.  Only code is rewritten, and only
where something was kept or where the field of the counters is filled.  Rewritten code has no
defects if the code had none and has room for labels.

**Main definitions.**
* `ClassFile.Rewrites`: what may become of a method.

**Results.**
* `Sheet.check_sheetOf`: what becomes of a body without defects has none.
* `Session.rewriting_of_probed`: what becomes of a class that gets probes.
-/

namespace BytecodeCoverage

theorem Scan.keptMarkers_ne_nil {scan : Scan} (h : scan.isEmpty = false) :
    scan.keptMarkers ≠ [] := by
  simp only [isEmpty, List.all_eq_false] at h
  obtain ⟨marker, hmarker, hkept⟩ := h
  exact List.ne_nil_of_mem (List.mem_filter.2 ⟨hmarker, by simpa using hkept⟩)

/-! ## What becomes of code -/

namespace Sheet

variable {style : ProbeStyle} {probed : Option (ScannedMethod × MethodSlots)} {fills : Bool}
  {body : Body}

theorem tryRanges_sheetOf : (sheetOf style probed fills body).body'.tryRanges = body.tryRanges := by
  cases probed <;> cases fills <;> rfl

theorem unlabelled_lead_sheetOf : Unlabelled (sheetOf style probed fills body).weave.lead := by
  have hfirst : Unlabelled (if fills then style.counters.fill else []) := by
    cases fills
    · exact .nil
    · exact .fill _
  cases probed with
  | none => exact hfirst
  | some e => exact hfirst.append (.prologue _ _)

/-- What becomes of a body without defects has none. -/
theorem check_sheetOf (hdrawn : body.Drawn) (h : body.check = .ok ()) :
    (sheetOf style probed fills body).body'.check = .ok () := by
  have hbody := Body.check_eq_ok.1 h
  have hsame : (sheetOf style probed fills body).weave.body = body := by cases probed <;> rfl
  refine Body.check_eq_ok.2 (Weave.wellFormed (valid_sheetOf hdrawn fun _ => hbody.toSound)
    code_sheetOf unlabelled_lead_sheetOf ?_ ?_)
  · rw [hsame]
    exact hbody
  · rw [tryRanges_sheetOf, hsame]

/-- A body stays as it is unless it is probed or fills the field. -/
theorem body'_sheetOf_none :
    (sheetOf style none fills body).body' =
      if fills then style.counters.prependFill body else body :=
  rfl

end Sheet

namespace Counters

variable (c : Counters)

/-- The fields that are added to a class. -/
def ownFields : List Field :=
  match c.strategy with
  | .field => [c.field]
  | .localVar | .constant => []

theorem check_accessorBody : c.accessorBody.check = .ok () := by
  obtain ⟨strategy, className, mode⟩ := c
  cases mode <;> rfl

/-- The members that are added have code without defects. -/
theorem check_ownMethods {methods : List Method} {method : Method}
    (h : method ∈ c.ownMethods methods) :
    ∃ body, method.body = some body ∧ body.check = .ok () := by
  unfold ownMethods at h
  split at h
  · rcases List.mem_cons.1 h with rfl | h
    · exact ⟨_, rfl, c.check_accessorBody⟩
    · split at h
      · cases h
      · obtain rfl := List.mem_singleton.1 h
        exact ⟨_, rfl, rfl⟩
  · cases h
  · cases h

end Counters

/-! ## What becomes of a class -/

/-- What may become of the method at a place of a class.  It keeps everything but its code, and the
code keeps its protected ranges.  It has no defects if it had none and there is room for the labels
of windows.  Code differs from what it was
only if the method was eligible and kept a line, or if it is the class initializer that fills the
field. -/
structure ClassFile.Rewrites (cls : ClassFile) (options : Options) (filters : List Filter)
    (place : Nat) (method method' : Method) : Prop where
  kept : method' = { method with body := method'.body }
  code : method'.body.isSome = method.body.isSome
  valid : ∀ body ∈ method.body, ∀ body' ∈ method'.body, body.Drawn →
    body.check = .ok () → body'.check = .ok ()
  ranges : ∀ body ∈ method.body, ∀ body' ∈ method'.body, body'.tryRanges = body.tryRanges
  changed : ∀ body ∈ method.body, ∀ body' ∈ method'.body, body' ≠ body →
    (options.eligible method = true ∧
        (options.scan filters ⟨cls, method⟩ body).keptMarkers ≠ []) ∨
      ((options.probeStyle cls).counters.strategy = .field ∧
        cls.methods.findIdx? Method.isInitializer = some place ∧
        body' = (options.probeStyle cls).counters.prependFill body)

namespace ClassFile

variable {cls : ClassFile} {options : Options} {filters : List Filter}
  {scanned : List ScannedMethod} {record : ClassRecord}
  {laidOut : List (ScannedMethod × MethodSlots)} {meanings : List Occurrence}

/-- Only fields and methods change. -/
theorem withProbes_eq (h : cls.LaidOut laidOut) (style : ProbeStyle) :
    cls.withProbes style laidOut =
      { cls with
        fields := cls.fields ++ style.counters.ownFields
        methods := cls.methods.mapIdx (cls.counterpart style laidOut) ++
          style.counters.ownMethods cls.methods } := by
  rw [← methods_withProbes_eq h]
  unfold withProbes Counters.prepare Counters.ownFields
  cases style.counters.strategy <;> simp

/-- A method becomes its counterpart. -/
theorem Made.rewrites (h : cls.Made options filters scanned record laidOut meanings) {place : Nat}
    {method : Method} (hmethod : cls.methods[place]? = some method) :
    cls.Rewrites options filters place method
      (cls.counterpart (options.probeStyle cls) laidOut place method) where
  kept := rfl
  code := Option.isSome_map ..
  valid body hbody body' hbody' hdrawn hcheck := by
    simp only [counterpart, Option.mem_def.1 hbody, Option.map_some, Option.mem_some_iff] at hbody'
    exact hbody' ▸ Sheet.check_sheetOf hdrawn hcheck
  ranges body hbody body' hbody' := by
    simp only [counterpart, Option.mem_def.1 hbody, Option.map_some, Option.mem_some_iff] at hbody'
    exact hbody' ▸ Sheet.tryRanges_sheetOf
  changed body hbody body' hbody' hne := by
    simp only [counterpart, Option.mem_def.1 hbody, Option.map_some, Option.mem_some_iff] at hbody'
    subst hbody'
    cases hprobed : probedAt laidOut place with
    | some e =>
        obtain ⟨m, slots⟩ := e
        obtain ⟨hsame, rfl, hmem⟩ := h.methods.of_probedAt hmethod hprobed
        obtain rfl := Option.some.inj (hbody.symm.trans hsame)
        obtain ⟨other, hother, heligible, hscan, hkept⟩ :=
          exists_of_mem_scanAll h.scan (h.listed ▸ List.mem_map_of_mem hmem)
        obtain rfl := Option.some.inj (hmethod.symm.trans hother)
        exact .inl ⟨heligible, hscan ▸ Scan.keptMarkers_ne_nil hkept⟩
    | none =>
        rw [sheetAt, hprobed, Sheet.body'_sheetOf_none] at hne ⊢
        cases hfills : cls.fillsAt (options.probeStyle cls) place with
        | false => simp [hfills] at hne
        | true =>
            rw [fillsAt, decide_eq_true_eq] at hfills
            exact .inr ⟨hfills.1, hfills.2, if_pos rfl⟩

end ClassFile

/-- A class that gets probes keeps its members in their order, each as before except for its code,
and the members of its counters come after them.  Added code has no defects, and neither has any
code that had none before and has room for labels.  Bodies with room that are made from their parts
are drawn (`Body.drawn_ofParts`). -/
theorem Session.rewriting_of_probed {s s' : Session} {filters : List Filter}
    {cls cls' : ClassFile} (h : s.instrument filters cls = (.probed cls', s')) :
    ∃ methods,
      cls' = { cls with
        fields := cls.fields ++ (s.options.probeStyle cls).counters.ownFields
        methods := methods ++ (s.options.probeStyle cls).counters.ownMethods cls.methods } ∧
      methods.length = cls.methods.length ∧
      (∀ place method method', cls.methods[place]? = some method →
        methods[place]? = some method' → cls.Rewrites s.options filters place method method') ∧
      ∀ method ∈ (s.options.probeStyle cls).counters.ownMethods cls.methods,
        ∃ body, method.body = some body ∧ body.check = .ok () := by
  obtain ⟨scanned, record, laidOut, meanings, hmade, -, rfl, rfl⟩ := exists_of_probed h
  refine ⟨_, ClassFile.withProbes_eq hmade.methods _, List.length_mapIdx, ?_,
    fun method => Counters.check_ownMethods _⟩
  intro place method method' hmethod hmethod'
  rw [List.getElem?_mapIdx, hmethod, Option.map_some, Option.some.injEq] at hmethod'
  exact hmethod' ▸ hmade.rewrites hmethod

/-- The one method of the class keeps its place, with code that has no defects, and the accessor and
a class initializer follow. -/
theorem Session.rewriting_of_probed_sign :
    ∃ method', (∃ accessor initializer, Sign.probed.methods = [method', accessor, initializer]) ∧
      Sign.cls.Rewrites {} [] 0 Sign.method method' ∧
      ∀ body' ∈ method'.body, body'.check = .ok () := by
  obtain ⟨methods, heq, hlength, hrewrites, -⟩ := rewriting_of_probed Sign.instrument_cls
  obtain ⟨method', rfl⟩ := List.length_eq_one_iff.1 hlength
  have hmethod := hrewrites 0 Sign.method method' rfl rfl
  refine ⟨method', ⟨_, _, congrArg ClassFile.methods heq⟩, hmethod, fun body' hbody' => ?_⟩
  have hdrawn : Sign.body.Drawn := Body.drawn_ofParts rfl Sign.roomy
  exact hmethod.valid Sign.body rfl body' hbody' hdrawn (by with_unfolding_all rfl)

end BytecodeCoverage
