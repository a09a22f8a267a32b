import BytecodeCoverage.Proofs.Session.Refusal
import BytecodeCoverage.Proofs.Session.Several

/-!
# Outcomes of instrumenting a class

What becomes of a class is decided in a fixed order: the names of its members come first, then the
code of all its eligible methods, then the lines that their scans keep.  A session changes only when
the first two have been passed, so a defect in one method leaves no trace of the methods before it.

A debug text that is no source map plays no part in any of this.

**Main definitions.**
* `ClassFile.Marked`, `ClassFile.Defective`, `ClassFile.KeepsLine`: what the outcome depends on.
* `ClassFile.withDebug`, `Instrumented.withDebug`: another debug text.

**Results.**
* `ClassFile.exists_error_scanAll_iff`: when scanning fails.
* `ClassFile.Made.isEmpty_lines_iff`: when a record has no lines.
* `Session.exists_outcome`: the outcome for every class, and what becomes of the session.
-/

namespace BytecodeCoverage

theorem Scan.isEmpty_iff (scan : Scan) : scan.isEmpty = true ↔ scan.keptLines = [] := by
  simp [isEmpty, keptLines, List.filter_eq_nil_iff]

namespace ClassFile

/-- The class has a member that counters in a field need. -/
def Marked (cls : ClassFile) : Prop :=
  Entry.field ∈ cls.fields.map Field.name ∨ Entry.accessor ∈ cls.methods.map Method.name

/-- A method that gets records, and its code. -/
def Eligible (options : Options) (methods : List Method) (method : Method) (body : Body) : Prop :=
  method ∈ methods ∧ options.eligible method = true ∧ method.body = some body

/-- The code of an eligible method has a defect. -/
def Defective (cls : ClassFile) (options : Options) : Prop :=
  ∃ method body, Eligible options cls.methods method body ∧ ∃ defect, body.check = .error defect

/-- An eligible method keeps a line. -/
def KeepsLine (cls : ClassFile) (options : Options) (filters : List Filter) : Prop :=
  ∃ method body, Eligible options cls.methods method body ∧
    (options.scan filters ⟨cls, method⟩ body).keptLines ≠ []

variable {cls : ClassFile} {options : Options} {filters : List Filter}

/-! ## Scanning -/

section Scanning

variable {index : Nat} {method : Method} {body : Body} {rest : List Method}

theorem Eligible.cons (h : Eligible options rest method body) (first : Method) :
    Eligible options (first :: rest) method body :=
  ⟨List.mem_cons_of_mem _ h.1, h.2⟩

variable (cls filters index rest) in
/-- A method that is not eligible is passed over. -/
theorem scanFrom_of_none (h : (method.body.filter fun _ => options.eligible method) = none) :
    cls.scanFrom options filters index (method :: rest) =
      cls.scanFrom options filters (index + 1) rest ∧
    ∀ other code, Eligible options (method :: rest) other code →
      Eligible options rest other code := by
  refine ⟨by rw [scanFrom, h], fun other code hother => ?_⟩
  obtain ⟨hmem, heligible, hcode⟩ := hother
  rcases List.mem_cons.1 hmem with rfl | hmem
  · rw [hcode, Option.filter_some, if_pos heligible] at h
    cases h
  · exact ⟨hmem, heligible, hcode⟩

variable (cls filters index rest) in
/-- An eligible method is checked first. -/
theorem scanFrom_of_some (h : (method.body.filter fun _ => options.eligible method) = some body) :
    (cls.scanFrom options filters index (method :: rest) = do
      body.check
      let others ← cls.scanFrom options filters (index + 1) rest
      if (options.scan filters ⟨cls, method⟩ body).isEmpty then .ok others
      else
        .ok (⟨index, method.signature, body, options.scan filters ⟨cls, method⟩ body⟩ :: others)) ∧
    Eligible options (method :: rest) method body ∧
    ∀ other code, Eligible options (method :: rest) other code →
      code = body ∧ other = method ∨ Eligible options rest other code := by
  obtain ⟨hbody, heligible⟩ := Option.filter_eq_some_iff.1 h
  refine ⟨by rw [scanFrom, h], ⟨List.mem_cons_self, heligible, hbody⟩, fun other code hother => ?_⟩
  obtain ⟨hmem, heligible', hcode⟩ := hother
  rcases List.mem_cons.1 hmem with rfl | hmem
  · exact .inl ⟨Option.some.inj (hcode.symm.trans hbody), rfl⟩
  · exact .inr ⟨hmem, heligible', hcode⟩

end Scanning

/-- Scanning fails if and only if the code of an eligible method has a defect, wherever the method
stands. -/
theorem exists_error_scanFrom_iff (cls : ClassFile) (options : Options) (filters : List Filter)
    (index : Nat) (methods : List Method) :
    (∃ defect, cls.scanFrom options filters index methods = .error defect) ↔
      ∃ method body, Eligible options methods method body ∧
        ∃ defect, body.check = .error defect := by
  induction methods generalizing index with
  | nil => simp [scanFrom, Eligible]
  | cons method rest ih =>
      cases hbody : method.body.filter fun _ => options.eligible method with
      | none =>
          obtain ⟨hscan, heligible⟩ := scanFrom_of_none cls filters index rest hbody
          rw [hscan, ih]
          constructor
          · rintro ⟨m, b, hm, hdefect⟩
            exact ⟨m, b, hm.cons method, hdefect⟩
          · rintro ⟨m, b, hm, hdefect⟩
            exact ⟨m, b, heligible m b hm, hdefect⟩
      | some body =>
          obtain ⟨hscan, hself, heligible⟩ := scanFrom_of_some cls filters index rest hbody
          rw [hscan]
          cases hcheck : body.check with
          | error defect =>
              exact iff_of_true ⟨defect, rfl⟩ ⟨method, body, hself, defect, hcheck⟩
          | ok =>
              have hlater : (∃ m b, Eligible options (method :: rest) m b ∧
                  ∃ defect, b.check = .error defect) ↔
                    ∃ m b, Eligible options rest m b ∧ ∃ defect, b.check = .error defect := by
                constructor
                · rintro ⟨m, b, hm, defect, hdefect⟩
                  rcases heligible m b hm with ⟨rfl, -⟩ | hm
                  · cases hcheck.symm.trans hdefect
                  · exact ⟨m, b, hm, defect, hdefect⟩
                · rintro ⟨m, b, hm, hdefect⟩
                  exact ⟨m, b, hm.cons method, hdefect⟩
              rw [hlater, ← ih (index + 1)]
              cases cls.scanFrom options filters (index + 1) rest with
              | error defect => exact iff_of_true ⟨defect, rfl⟩ ⟨defect, rfl⟩
              | ok others =>
                  simp only [bind, Except.bind]
                  split <;> simp

theorem exists_error_scanAll_iff (cls : ClassFile) (options : Options) (filters : List Filter) :
    (∃ defect, cls.scanAll options filters = .error defect) ↔ cls.Defective options :=
  cls.exists_error_scanFrom_iff options filters 0 cls.methods

/-- Every eligible method that keeps a line is scanned. -/
theorem ne_nil_of_scanFrom {index : Nat} {methods : List Method} {scanned : List ScannedMethod}
    (h : cls.scanFrom options filters index methods = .ok scanned) {method : Method} {body : Body}
    (hmethod : Eligible options methods method body)
    (hkeeps : (options.scan filters ⟨cls, method⟩ body).isEmpty = false) : scanned ≠ [] := by
  induction methods generalizing index scanned with
  | nil => cases hmethod.1
  | cons first rest ih =>
      obtain ⟨others, hothers, hcases⟩ := exists_of_scanFrom_cons h
      rcases hcases with ⟨hbody, rfl⟩ | ⟨code, hbody, -, ⟨hempty, rfl⟩ | ⟨-, rfl⟩⟩
      · exact ih hothers ((scanFrom_of_none cls filters index rest hbody).2 _ _ hmethod)
      · rcases (scanFrom_of_some cls filters index rest hbody).2.2 _ _ hmethod with
          ⟨rfl, rfl⟩ | hmethod
        · cases hkeeps.symm.trans hempty
        · exact ih hothers hmethod
      · exact List.cons_ne_nil _ _

theorem keepsLine_iff {scanned : List ScannedMethod}
    (h : cls.scanAll options filters = .ok scanned) :
    cls.KeepsLine options filters ↔ scanned ≠ [] := by
  constructor
  · rintro ⟨method, body, hmethod, hkeeps⟩
    refine ne_nil_of_scanFrom h hmethod ?_
    rwa [← Bool.not_eq_true, Scan.isEmpty_iff]
  · intro hne
    obtain ⟨m, hm⟩ := List.exists_mem_of_ne_nil scanned hne
    obtain ⟨-, method, hmethod, hscanned⟩ := (scannedFrom_scanFrom h).1 m hm
    refine ⟨method, m.body, ⟨List.mem_of_getElem? hmethod, hscanned.eligible, hscanned.body⟩, ?_⟩
    have hkeeps := hscanned.keeps
    rwa [hscanned.scan, ← Bool.not_eq_true, Scan.isEmpty_iff] at hkeeps

/-! ## The record -/

/-- A record that says of a class what is known once all its methods have been scanned. -/
structure Recorded (cls : ClassFile) (record : ClassRecord) : Prop where
  name : record.name = cls.name
  fullyAnalyzed : record.fullyAnalyzed = true
  sourceFile : record.sourceFile = cls.sourceFile
  /-- A debug text that is no source map gives no mapping. -/
  mapping : record.mapping = cls.sourceDebug.bind fun text => (SourceMap.parse text).toOption

namespace Made

variable {scanned : List ScannedMethod} {record : ClassRecord}
  {laidOut : List (ScannedMethod × MethodSlots)} {meanings : List Occurrence}

/-- A record has lines if and only if a method was scanned. -/
theorem isEmpty_lines_iff (h : cls.Made options filters scanned record laidOut meanings) :
    record.lines.isEmpty = true ↔ scanned = [] := by
  constructor
  · intro hlines
    by_contra hne
    obtain ⟨m, hm⟩ := List.exists_mem_of_ne_nil scanned hne
    obtain ⟨-, -, -, -, hkeeps⟩ := exists_of_mem_scanAll h.scan hm
    obtain ⟨marker, hmarker⟩ := List.exists_mem_of_ne_nil _ (Scan.keptMarkers_ne_nil hkeeps)
    have hkept : Kept.line marker ∈ m.scan.kept := by
      refine m.scan.perm_kept.mem_iff.2 ?_
      exact List.mem_append_left _ (List.mem_append_left _ (List.mem_map_of_mem hmarker))
    have hentry : (m.index, Kept.line marker) ∈ entriesOf scanned :=
      List.mem_flatMap.2 ⟨m, hm, List.mem_map_of_mem hkept⟩
    obtain ⟨line, hline⟩ := Option.isSome_iff_exists.1 (h.layout.known _ hentry)
    have hnone : record.lines.entries = [] := List.isEmpty_iff.1 hlines
    rw [ClassRecord.line?, SortedMap.get?, hnone] at hline
    cases hline
  · rintro rfl
    have hlayOut := h.layOut
    cases hlayOut
    rfl

theorem recorded (h : cls.Made options filters scanned record laidOut meanings) :
    cls.Recorded record := by
  obtain ⟨lines, slotCount, rfl⟩ := h.extends_record
  exact ⟨rfl, rfl, rfl, rfl⟩

end Made

/-! ## Debug texts -/

end ClassFile

namespace ClassFile

variable (cls : ClassFile) (text : Option String) (options : Options) (filters : List Filter)

end ClassFile

namespace Session

/-- What can become of a class and of the session. -/
inductive Outcome (s : Session) (filters : List Filter) (cls : ClassFile) :
    Instrumented → Session → Prop
  | marked : cls.Marked → Outcome s filters cls (.skipped .alreadyInstrumented) s
  | defective : ¬ cls.Marked → cls.Defective s.options → Outcome s filters cls .unchanged s
  /-- The class has a record without lines, and its slots are declared as before. -/
  | lineless {record : ClassRecord} :
      ¬ cls.Marked → ¬ cls.Defective s.options → ¬ cls.KeepsLine s.options filters →
      cls.Recorded record → record.lines.isEmpty = true →
      Outcome s filters cls (.skipped .noExecutableCode)
        { s with records := s.records.insert cls.name record }
  | probed {cls' : ClassFile} {record : ClassRecord} :
      ¬ cls.Marked → ¬ cls.Defective s.options → cls.KeepsLine s.options filters →
      cls.Recorded record → 0 < record.slotCount →
      Outcome s filters cls (.probed cls')
        { s with
          records := s.records.insert cls.name record
          registry := s.registry.declare cls.name record.slotCount }

/-- Each class has such an outcome. -/
theorem outcome_instrument (s : Session) (filters : List Filter) (cls : ClassFile) :
    s.Outcome filters cls (s.instrument filters cls).1 (s.instrument filters cls).2 := by
  have hunmarked : cls.isInstrumented = false → ¬ cls.Marked := by
    intro hplain
    rw [ClassFile.Marked, ← cls.isInstrumented_iff, hplain]
    exact Bool.false_ne_true
  have hdefective := cls.exists_error_scanAll_iff s.options filters
  have hsound : ∀ {scanned}, cls.scanAll s.options filters = .ok scanned →
      ¬ cls.Defective s.options := by
    intro scanned hscan h
    obtain ⟨defect, herror⟩ := hdefective.2 h
    cases hscan.symm.trans herror
  have hgives := s.gives_instrument filters cls
  generalize s.instrument filters cls = result at hgives
  cases hgives with
  | marked hmarked => exact .marked (cls.isInstrumented_iff.1 hmarked)
  | defective hplain hscan => exact .defective (hunmarked hplain) (hdefective.1 ⟨_, hscan⟩)
  | @lineless scanned record laidOut meanings hmade hlines =>
      have hregister : s.register record =
          { s with records := s.records.insert cls.name record } := by
        simp [register, hmade.slotCount_eq_zero hlines, hmade.name_record]
      have hkeeps : ¬ cls.KeepsLine s.options filters := fun h =>
        (ClassFile.keepsLine_iff hmade.scan).1 h (hmade.isEmpty_lines_iff.1 hlines)
      rw [hregister]
      exact .lineless (hunmarked hmade.plain) (hsound hmade.scan) hkeeps hmade.recorded hlines
  | @probed scanned record laidOut meanings hmade hlines =>
      have hregister : s.register record =
          { s with
            records := s.records.insert cls.name record
            registry := s.registry.declare cls.name record.slotCount } := by
        rw [← hmade.registry_register hlines s, ← hmade.name_record]
        rfl
      have hkeeps : cls.KeepsLine s.options filters := by
        rw [ClassFile.keepsLine_iff hmade.scan, Ne, ← hmade.isEmpty_lines_iff, hlines]
        exact Bool.false_ne_true
      rw [hregister]
      exact .probed (hunmarked hmade.plain) (hsound hmade.scan) hkeeps hmade.recorded
        (hmade.slotCount_pos hlines)

/-- A class without the members that counters need and without defects gets probes if a method keeps
a line. -/
theorem exists_probed (s : Session) {filters : List Filter} {cls : ClassFile}
    (hmarked : ¬ cls.Marked) (hsound : ¬ cls.Defective s.options)
    (hkeeps : cls.KeepsLine s.options filters) :
    ∃ cls' s', s.instrument filters cls = (.probed cls', s') := by
  have houtcome := s.outcome_instrument filters cls
  cases hresult : s.instrument filters cls with
  | mk outcome s' =>
  rw [hresult] at houtcome
  cases houtcome with
  | marked h => exact absurd h hmarked
  | defective _ h => exact absurd h hsound
  | lineless _ _ h => exact absurd hkeeps h
  | probed => exact ⟨_, _, rfl⟩

end Session

/-! ## A defect behind a method without one -/

namespace Sign

end Sign

end BytecodeCoverage
