import BytecodeCoverage.Proofs.Session.Behaviour
import BytecodeCoverage.Proofs.Session.Rewriting

/-!
# Instrumenting a class twice

A class is refused if it has the members that counters kept in a field need. Only the strategy with
a field adds them. The other strategies leave the members of a class alone, and a class with their
probes is taken for one without.

**Results.**
* `ClassFile.isInstrumented_withProbes`: which classes with probes are recognized.
* `Session.refuses_probed_iff`: which classes with probes are refused.
-/

namespace BytecodeCoverage

/-- The strategy with a field is used where it is chosen, or where constants are chosen but not
available. It is never used for an interface. -/
theorem Options.strategyFor_eq_field_iff (options : Options) (cls : ClassFile) :
    options.strategyFor cls = .field ↔
      cls.isInterface = false ∧
        (options.strategy = .field ∨
          options.strategy = .constant ∧ cls.major < Options.constantsSince) := by
  unfold strategyFor
  cases options.strategy with
  | field => cases cls.isInterface <;> simp
  | localVar => simp
  | constant =>
      by_cases hmajor : cls.major < constantsSince <;> cases cls.isInterface <;> simp [hmajor]

namespace ClassFile

/-- A class is recognized by the names of its members. -/
theorem isInstrumented_iff (cls : ClassFile) :
    cls.isInstrumented = true ↔
      Entry.field ∈ cls.fields.map Field.name ∨ Entry.accessor ∈ cls.methods.map Method.name := by
  simp [isInstrumented, field?, List.find?_isSome]

/-- Probes are recognized if their counters are kept in a field. -/
theorem isInstrumented_withProbes {cls : ClassFile}
    {laidOut : List (ScannedMethod × MethodSlots)} (h : cls.LaidOut laidOut)
    (hplain : cls.isInstrumented = false) (style : ProbeStyle) :
    (cls.withProbes style laidOut).isInstrumented = true ↔ style.counters.strategy = .field := by
  have hnames : (cls.methods.mapIdx (cls.counterpart style laidOut)).map Method.name =
      cls.methods.map Method.name := by
    refine List.ext_getElem? fun place => ?_
    rw [List.getElem?_map, List.getElem?_map, List.getElem?_mapIdx, Option.map_map]
    rfl
  rw [← Bool.not_eq_true, isInstrumented_iff] at hplain
  rw [isInstrumented_iff, withProbes_eq h, List.map_append, List.map_append, hnames,
    Counters.ownFields, Counters.ownMethods]
  cases hstrategy : style.counters.strategy with
  | field => simp [Counters.field]
  | localVar | constant => simpa using hplain

end ClassFile

namespace Session

/-- Only a class with the members is refused, and then nothing else happens. -/
theorem instrument_eq_alreadyInstrumented_iff (s : Session) (filters : List Filter)
    (cls : ClassFile) :
    s.instrument filters cls = (.skipped .alreadyInstrumented, s) ↔ cls.isInstrumented = true := by
  constructor
  · intro h
    have hgives := s.gives_instrument filters cls
    rw [h] at hgives
    cases hgives with
    | marked hmarked => exact hmarked
  · intro hmarked
    rw [instrument, if_pos hmarked]

/-- A class with probes is refused, at once and at any later time and with any filters, if and only
if its counters are kept in a field: the class is no interface, and either the field was chosen
or constants were chosen for a class file of a version without them. -/
theorem refuses_probed_iff {s s' : Session} {filters : List Filter} {cls cls' : ClassFile}
    (h : s.instrument filters cls = (.probed cls', s')) (later : Session)
    (filters' : List Filter) :
    later.instrument filters' cls' = (.skipped .alreadyInstrumented, later) ↔
      cls.isInterface = false ∧
        (s.options.strategy = .field ∨
          s.options.strategy = .constant ∧ cls.major < Options.constantsSince) := by
  obtain ⟨scanned, record, laidOut, meanings, hmade, -, rfl, -⟩ := exists_of_probed h
  rw [instrument_eq_alreadyInstrumented_iff,
    ClassFile.isInstrumented_withProbes hmade.methods hmade.plain]
  exact s.options.strategyFor_eq_field_iff cls

theorem refuses_probed_iff_sign :
    (({} : Session).register Sign.laid.1).instrument [] Sign.probed =
      (.skipped .alreadyInstrumented, ({} : Session).register Sign.laid.1) :=
  (refuses_probed_iff Sign.instrument_cls _ []).2 ⟨by decide, .inl rfl⟩

end Session

/-! ## Counters in a local variable -/

namespace Sign

def localOptions : Options where
  strategy := .localVar

/-- The class with probes that keep the counters in a local variable. -/
def localProbed : ClassFile :=
  cls.withProbes (localOptions.probeStyle cls) [(scanned, laid.2)]

theorem instrument_cls_local : ({ options := localOptions } : Session).instrument [] cls =
    (.probed localProbed, ({ options := localOptions } : Session).register laid.1) :=
  Session.instrument_of_kept (by decide) scanAll_cls rfl kept_scanned rfl

end Sign

/-- The class is not refused a second time. -/
theorem Session.accepts_probed_sign :
    ({ options := Sign.localOptions } : Session).instrument [] Sign.cls =
      (.probed Sign.localProbed,
        ({ options := Sign.localOptions } : Session).register Sign.laid.1) ∧
    (({ options := Sign.localOptions } : Session).register Sign.laid.1).instrument []
        Sign.localProbed ≠
      (.skipped .alreadyInstrumented,
        ({ options := Sign.localOptions } : Session).register Sign.laid.1) := by
  refine ⟨Sign.instrument_cls_local, fun h => ?_⟩
  exact absurd ((instrument_eq_alreadyInstrumented_iff ..).1 h) (by decide)

end BytecodeCoverage
