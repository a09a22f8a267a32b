import BytecodeCoverage.Proofs.Coverage.Merging
import BytecodeCoverage.Proofs.Session.Exact
import BytecodeCoverage.Proofs.Session.Fleet

/-!
# Sessions of several classes

Instrumenting a class changes nothing that a session has of classes with other names.  So once
classes with different names have been instrumented, one after the other, the session has of each
of them what it would have if there were no others.

**Main definitions.**
* `Session.instrumentAll`: instrumenting classes, and what is run in place of each.
* `Session.Holds`: what a session has of a class.
* `Session.Prepared`: a session that has been used for instrumenting only.

**Results.**
* `Session.prepared_instrumentAll`: a new session, once classes have been instrumented.
* `Session.snapshot_eq`: the records in a snapshot.
-/

namespace BytecodeCoverage

open Machine

/-- What is run in place of a class: its counterpart with probes, or else the class as it is. -/
def Instrumented.counterpart (cls : ClassFile) : Instrumented → ClassFile
  | .probed cls' => cls'
  | _ => cls

namespace Session

/-- Instruments classes one after the other; gives each class with what is run in its place. -/
def instrumentAll (s : Session) (filters : List Filter) :
    List ClassFile → List (ClassFile × ClassFile) × Session
  | [] => ([], s)
  | cls :: rest =>
      let (result, s) := s.instrument filters cls
      let (others, s) := s.instrumentAll filters rest
      ((cls, result.counterpart cls) :: others, s)

/-- What a session has of a class, given what is run in place of the class and their pairing. -/
def Holds (s : Session) (filters : List Filter) (cls cls' : ClassFile) : Option Pairing → Prop
  | some p => ∃ scanned record laidOut meanings,
      cls.Made s.options filters scanned record laidOut meanings ∧
      s.record? cls.name = some record ∧
      s.registry.slotCount? cls.name = some record.slotCount ∧
      cls' = cls.withProbes (s.options.probeStyle cls) laidOut ∧
      p = cls.pairing (s.options.probeStyle cls) laidOut record.slotCount
  | none =>
      (∀ record, s.record? cls.name = some record →
        record.name = cls.name ∧ record.applyHits [] = record) ∧
      s.registry.slotCount? cls.name = none ∧ cls' = cls

/-- The second session comes from the first by taking in classes with the listed names. -/
structure Grown (names : List String) (s s' : Session) : Prop where
  options : s'.options = s.options
  unused : s.registry.Unused → s'.registry.Unused
  record : ∀ name, name ∉ names → s'.record? name = s.record? name
  slots : ∀ name, name ∉ names → s'.registry.slotCount? name = s.registry.slotCount? name

namespace Grown

variable {s s₁ s₂ : Session} {a b : List String}

theorem refl (names : List String) (s : Session) : Grown names s s where
  options := rfl
  unused := id
  record _ _ := rfl
  slots _ _ := rfl

theorem trans (h₁ : Grown a s s₁) (h₂ : Grown b s₁ s₂) : Grown (a ++ b) s s₂ where
  options := h₂.options.trans h₁.options
  unused h := h₂.unused (h₁.unused h)
  record name hname := by
    rw [List.mem_append, not_or] at hname
    exact (h₂.record name hname.2).trans (h₁.record name hname.1)
  slots name hname := by
    rw [List.mem_append, not_or] at hname
    exact (h₂.slots name hname.2).trans (h₁.slots name hname.1)

end Grown

variable {s s' : Session} {filters : List Filter} {cls cls' : ClassFile}
  {pairing : Option Pairing}

/-- What a session has of a class stays when others are taken in. -/
theorem Holds.of_grown (h : s.Holds filters cls cls' pairing) {names : List String}
    (hgrown : Grown names s s') (hname : cls.name ∉ names) :
    s'.Holds filters cls cls' pairing := by
  cases pairing <;>
    simpa only [Holds, hgrown.options, hgrown.record _ hname, hgrown.slots _ hname] using h

theorem record?_register (s : Session) (record : ClassRecord) :
    (s.register record).record? record.name = some record :=
  s.records.get?_insert_self record.name record

theorem grown_register (s : Session) (record : ClassRecord) :
    Grown [record.name] s (s.register record) where
  options := rfl
  unused h := by
    simp only [register]
    split
    · exact h.declare record.name record.slotCount
    · exact h
  record name hname := s.records.get?_insert_of_ne record (List.ne_of_not_mem_cons hname)
  slots name hname := by
    simp only [register]
    split
    · rw [Registry.slotCount?_declare, if_neg (List.ne_of_not_mem_cons hname)]
    · rfl

end Session

namespace ClassFile.Made

variable {cls : ClassFile} {options : Options} {filters : List Filter}
  {scanned : List ScannedMethod} {record : ClassRecord}
  {laidOut : List (ScannedMethod × MethodSlots)} {meanings : List Occurrence}

/-- A record without lines has no slots. -/
theorem slotCount_eq_zero (h : cls.Made options filters scanned record laidOut meanings)
    (hlines : record.lines.isEmpty = true) : record.slotCount = 0 := by
  by_contra hpos
  have hnone : ∀ number, record.line? number = none := by
    intro number
    have hentries : record.lines.entries = [] := List.isEmpty_iff.1 hlines
    rw [ClassRecord.line?, SortedMap.get?, hentries]
    rfl
  obtain ⟨o, ho⟩ := h.exists_standsFor (Nat.pos_of_ne_zero hpos)
  generalize (0 : Nat) = slot at ho
  cases ho with
  | line hline | taken hline | notTaken hline | case hline | otherwise hline =>
      rw [hnone] at hline
      cases hline

/-- A record without lines has no counters. -/
theorem applyHits_nil (h : cls.Made options filters scanned record laidOut meanings)
    (hlines : record.lines.isEmpty = true) : record.applyHits [] = record := by
  obtain ⟨lines, slotCount, rfl⟩ := h.extends_record
  have hentries : lines.entries = [] := List.isEmpty_iff.1 hlines
  have hsame : lines.mapValues (fun _ line => line.applyHits []) = lines := by
    obtain ⟨entries, ascending⟩ := lines
    subst hentries
    rfl
  simp only [ClassRecord.applyHits, ClassRecord.applyToLines, hsame]
  rfl

end ClassFile.Made

namespace Session

variable {filters : List Filter}

/-- Instrumenting a class that the session has nothing of. -/
theorem holds_instrument (s : Session) (filters : List Filter) {cls : ClassFile}
    (hrecord : s.record? cls.name = none) (hslots : s.registry.slotCount? cls.name = none) :
    Grown [cls.name] s (s.instrument filters cls).2 ∧
      ∃ pairing, (s.instrument filters cls).2.Holds filters cls
        ((s.instrument filters cls).1.counterpart cls) pairing := by
  have hleft : s.Holds filters cls cls none := by
    refine ⟨fun record hsome => ?_, hslots, rfl⟩
    rw [hrecord] at hsome
    cases hsome
  have hgives := s.gives_instrument filters cls
  generalize s.instrument filters cls = result at hgives
  cases hgives with
  | marked | defective => exact ⟨.refl _ s, none, hleft⟩
  | @lineless scanned record laidOut meanings hmade hlines =>
      have hname := hmade.name_record
      refine ⟨hname ▸ s.grown_register record, none, fun other hother => ?_, ?_, rfl⟩
      · have hregister := hname ▸ s.record?_register record
        obtain rfl := Option.some.inj (hregister.symm.trans hother)
        exact ⟨hname, hmade.applyHits_nil hlines⟩
      · simp only [register, hmade.slotCount_eq_zero hlines]
        exact hslots
  | @probed scanned record laidOut meanings hmade hlines =>
      have hname := hmade.name_record
      refine ⟨hname ▸ s.grown_register record, some _, scanned, record, laidOut, meanings, hmade,
        hname ▸ s.record?_register record, ?_, rfl, rfl⟩
      rw [hmade.registry_register hlines, Registry.slotCount?_declare, if_pos rfl]

theorem map_fst_instrumentAll (s : Session) (filters : List Filter) (classes : List ClassFile) :
    (s.instrumentAll filters classes).1.map Prod.fst = classes := by
  induction classes generalizing s with
  | nil => rfl
  | cons cls rest ih => simp only [instrumentAll, List.map_cons, ih]

/-- Instrumenting classes with different names that the session has nothing of. -/
theorem holds_instrumentAll (s : Session) (filters : List Filter) {classes : List ClassFile}
    (hnames : (classes.map ClassFile.name).Nodup)
    (hfresh : ∀ cls ∈ classes,
      s.record? cls.name = none ∧ s.registry.slotCount? cls.name = none) :
    Grown (classes.map ClassFile.name) s (s.instrumentAll filters classes).2 ∧
      ∃ pairing : String → Option Pairing,
        (∀ name, name ∉ classes.map ClassFile.name → pairing name = none) ∧
        ∀ x ∈ (s.instrumentAll filters classes).1,
          (s.instrumentAll filters classes).2.Holds filters x.1 x.2 (pairing x.1.name) := by
  induction classes generalizing s with
  | nil => exact ⟨.refl _ s, fun _ => none, fun _ _ => rfl, by simp [instrumentAll]⟩
  | cons cls rest ih =>
      rw [List.map_cons, List.nodup_cons] at hnames
      rw [List.forall_mem_cons] at hfresh
      obtain ⟨hgrown₁, first, hholds₁⟩ := s.holds_instrument filters hfresh.1.1 hfresh.1.2
      obtain ⟨hgrown₂, pairing, hnone, hholds₂⟩ :=
        ih (s.instrument filters cls).2 hnames.2 fun other hother => by
          have hne : other.name ∉ [cls.name] := fun hmem =>
            hnames.1 (List.mem_singleton.1 hmem ▸ List.mem_map_of_mem hother)
          rw [hgrown₁.record _ hne, hgrown₁.slots _ hne]
          exact hfresh.2 other hother
      refine ⟨hgrown₁.trans hgrown₂, Function.update pairing cls.name first, ?_, ?_⟩
      · intro name hname
        rw [List.map_cons, List.mem_cons, not_or] at hname
        rw [Function.update_of_ne hname.1]
        exact hnone name hname.2
      · intro x hx
        rcases List.mem_cons.1 hx with rfl | hx
        · rw [Function.update_self]
          exact hholds₁.of_grown hgrown₂ hnames.1
        · have hmem : x.1 ∈ rest := by
            rw [← map_fst_instrumentAll (s.instrument filters cls).2 filters rest]
            exact List.mem_map_of_mem hx
          rw [Function.update_of_ne fun heq : x.1.name = cls.name =>
            hnames.1 (heq ▸ List.mem_map_of_mem hmem)]
          exact hholds₂ x hx

/-- A session that has been used for instrumenting only. -/
structure Prepared (s : Session) (filters : List Filter) (kept : List (ClassFile × ClassFile))
    (pairing : String → Option Pairing) : Prop where
  unused : s.registry.Unused
  holds : ∀ x ∈ kept, s.Holds filters x.1 x.2 (pairing x.1.name)
  others : ∀ name, (∀ x ∈ kept, x.1.name ≠ name) →
    pairing name = none ∧ s.record? name = none ∧ s.registry.slotCount? name = none

/-- A new session, once classes with different names have been instrumented. -/
theorem prepared_instrumentAll {options : Options} {classes : List ClassFile}
    (hnames : (classes.map ClassFile.name).Nodup) {kept : List (ClassFile × ClassFile)}
    {s : Session} (h : ({ options } : Session).instrumentAll filters classes = (kept, s)) :
    s.options = options ∧ kept.map Prod.fst = classes ∧
      ∃ pairing, s.Prepared filters kept pairing := by
  obtain ⟨hgrown, pairing, hnone, hholds⟩ :=
    holds_instrumentAll ({ options } : Session) filters hnames fun _ _ => ⟨rfl, rfl⟩
  have hlisted := map_fst_instrumentAll ({ options } : Session) filters classes
  rw [h] at hgrown hholds hlisted
  refine ⟨hgrown.options, hlisted, pairing, hgrown.unused .empty, hholds, ?_⟩
  intro name hother
  have hname : name ∉ classes.map ClassFile.name := by
    rw [← hlisted, List.map_map]
    intro hmem
    obtain ⟨x, hx, heq⟩ := List.mem_map.1 hmem
    exact hother x hx heq
  exact ⟨hnone name hname, hgrown.record name hname, hgrown.slots name hname⟩

namespace Prepared

variable {s : Session} {kept : List (ClassFile × ClassFile)} {pairing : String → Option Pairing}
  {name : String}

/-- A class with a pairing has been instrumented. -/
theorem exists_made (h : s.Prepared filters kept pairing) {p : Pairing}
    (hp : pairing name = some p) :
    ∃ cls scanned record laidOut meanings, cls ∈ kept.map Prod.fst ∧ cls.name = name ∧
      cls.Made s.options filters scanned record laidOut meanings ∧
      s.record? name = some record ∧ s.registry.slotCount? name = some record.slotCount ∧
      p = cls.pairing (s.options.probeStyle cls) laidOut record.slotCount := by
  by_cases hknown : ∃ x ∈ kept, x.1.name = name
  · obtain ⟨x, hx, rfl⟩ := hknown
    have hholds := h.holds x hx
    rw [hp] at hholds
    obtain ⟨scanned, record, laidOut, meanings, hmade, hrecord, hslots, -, rfl⟩ := hholds
    exact ⟨x.1, scanned, record, laidOut, meanings, List.mem_map_of_mem hx, rfl, hmade, hrecord,
      hslots, rfl⟩
  · have hnone := (h.others name (by simpa using hknown)).1
    rw [hp] at hnone
    cases hnone

/-- A class without pairing has no slots, and its record has no counters. -/
theorem plain (h : s.Prepared filters kept pairing) (hp : pairing name = none) :
    s.registry.slotCount? name = none ∧
      ∀ record, s.record? name = some record →
        record.name = name ∧ record.applyHits [] = record := by
  by_cases hknown : ∃ x ∈ kept, x.1.name = name
  · obtain ⟨x, hx, rfl⟩ := hknown
    have hholds := h.holds x hx
    rw [hp] at hholds
    exact ⟨hholds.2.1, hholds.1⟩
  · obtain ⟨-, hrecord, hslots⟩ := h.others name (by simpa using hknown)
    refine ⟨hslots, fun record hsome => ?_⟩
    rw [hrecord] at hsome
    cases hsome

/-- Records are stored under their names. -/
theorem name_record (h : s.Prepared filters kept pairing) {record : ClassRecord}
    (hrecord : s.record? name = some record) : record.name = name := by
  cases hp : pairing name with
  | none => exact ((h.plain hp).2 record hrecord).1
  | some p =>
      obtain ⟨cls, _, _, _, _, -, rfl, hmade, hsome, -, -⟩ := h.exists_made hp
      obtain rfl := Option.some.inj (hsome.symm.trans hrecord)
      exact hmade.name_record

end Prepared

/-! ## Snapshots -/

variable (s : Session)

/-- A record with what the registry tells about its class. -/
theorem filled_eq {record : ClassRecord}
    (h : s.registry.counters? record.name = none → record.applyHits [] = record) :
    s.filled record =
      { record.applyHits (s.registry.tally record.name).counts with
        trace := if s.options.tracking then (s.registry.tally record.name).trace
          else record.trace } := by
  cases hcounters : s.registry.counters? record.name with
  | some hits =>
      have hcounts : (s.registry.tally record.name).counts = hits := by
        simp only [Registry.tally, hcounters, Option.getD_some]
      simp only [filled, hcounters, hcounts]
      split <;> rfl
  | none =>
      have hcounts : (s.registry.tally record.name).counts = [] := by
        simp only [Registry.tally, hcounters, Option.getD_none]
      simp only [filled, hcounters, hcounts, h hcounters]
      split <;> rfl

theorem name_filled (record : ClassRecord) : (s.filled record).name = record.name := by
  simp only [filled]
  split <;> split <;> rfl

theorem snapshot_eq (h : ∀ name record, s.record? name = some record → record.name = name) :
    s.snapshot =
      { mode := s.mode, classes := s.records.mapValues fun _ record => s.filled record } := by
  have hfold : ∀ (records : List ClassRecord) (start : Snapshot),
      records.foldl (fun snapshot record => snapshot.insert (s.filled record)) start =
        { start with
          classes := start.classes.insertAll
            (records.map fun record => ((s.filled record).name, s.filled record)) } := by
    intro records
    induction records with
    | nil => exact fun _ => rfl
    | cons record rest ih => exact fun start => (ih (start.insert (s.filled record))).trans rfl
  have hentries : (s.records.values.map fun record => ((s.filled record).name, s.filled record)) =
      (s.records.mapValues fun _ record => s.filled record).entries := by
    simp only [SortedMap.values, SortedMap.mapValues, List.map_map]
    refine List.map_congr_left fun e he => ?_
    have hname := (s.name_filled e.2).trans (h e.1 e.2 (SortedMap.mem_entries.1 he))
    exact congrArg (·, s.filled e.2) hname
  rw [snapshot, hfold, hentries]
  exact congrArg (Snapshot.mk s.mode) (SortedMap.ofList_entries _)

end Session

end BytecodeCoverage
