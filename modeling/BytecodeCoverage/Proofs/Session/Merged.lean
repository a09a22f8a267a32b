import BytecodeCoverage.Proofs.Probe.Joining
import BytecodeCoverage.Proofs.Session.Several

/-!
# Merging runs is running them together

Sessions that have instrumented the same classes hold the same records, so their snapshots differ
only in what the registries tell about the classes.  The registry of a session that runs calls of
two runs one after the other tells of each class what those of two sessions tell, put together.

**Main definitions.**
* `Run`: calls on machines of instrumented classes.
* `ClassRecord.totalAt`: how many events are counted at a place of the array of a class.

**Results.**
* `Session.Prepared.tally_join`: what the registry tells after two runs.
* `Session.snapshotMerged_snapshot`: the merge of the snapshots of two sessions.
-/

namespace BytecodeCoverage

open Machine

/-- Calls on machines.  Each machine has a class and what is run in its place. -/
structure Run (ι : Type) where
  of : ι → ClassFile × ClassFile
  calls : List (ι × Call)

namespace Run

variable {ι : Type} [DecidableEq ι]

/-- The calls are made on new machines; gives the results and the registry afterwards. -/
def execute (run : Run ι) (keeper : ι → Nat) (registry : Registry) :
    List (Except MachineFault (Option Int32)) × Registry :=
  let (results, fleet) :=
    (Fleet.start registry (fun i => (run.of i).2) keeper).invokeAll run.calls
  (results, fleet.registry)

/-- The events of the classes themselves with a name. -/
def events (run : Run ι) (name : String) : List Event :=
  Fleet.eventsIn (fun i => (run.of i).1) name
    (Fleet.events (fun i => .start (run.of i).1 {} 0) run.calls)

/-- The machines are of instrumented classes, and their methods can be called like this. -/
structure Fits (run : Run ι) (kept : List (ClassFile × ClassFile)) : Prop where
  of : ∀ i, run.of i ∈ kept
  callable : ∀ x ∈ run.calls, (run.of x.1).1.Callable x.2

/-- No call reaches the limit of steps. -/
def Completes (run : Run ι) (keeper : ι → Nat) (registry : Registry) : Prop :=
  ∀ result ∈ (run.execute keeper registry).1, result ≠ .error .stepLimit

end Run

open Classical in
/-- How many events are counted at a place.  Slots beyond the greatest integer share a place. -/
noncomputable def ClassRecord.totalAt (record : ClassRecord) (scanned : List ScannedMethod)
    (place : Nat) (events : List Event) : Nat :=
  events.countP fun e => ∃ slot o, record.StandsFor scanned slot o ∧ Probe.place slot = place ∧
    o.holds scanned e = true

namespace ClassFile.Made

variable {cls : ClassFile} {options : Options} {filters : List Filter}
  {scanned : List ScannedMethod} {record : ClassRecord}
  {laidOut : List (ScannedMethod × MethodSlots)} {meanings : List Occurrence}
  {style : ProbeStyle} {slots : Nat}

theorem countP_eq_totalAt (h : cls.Made options filters scanned record laidOut meanings)
    (place : Nat) {events : List Event}
    (hmarked : ∀ e ∈ events, (cls.pairing style laidOut slots).Marked e) :
    events.countP (fun e =>
        ((cls.pairing style laidOut slots).slotOf? e).map Probe.place = some place) =
      record.totalAt scanned place events := by
  classical
  refine List.countP_congr fun e he => ?_
  rw [decide_eq_true_eq, decide_eq_true_eq, Option.map_eq_some_iff]
  constructor
  · rintro ⟨slot, hslot, hplace⟩
    obtain ⟨o, ho⟩ := h.exists_standsFor (h.slotOf?_lt hslot)
    exact ⟨slot, o, ho, hplace,
      (h.slotOf?_eq_some_iff (h.meaning_of_standsFor ho) (hmarked e he)).1 hslot⟩
  · rintro ⟨slot, o, ho, hplace, hholds⟩
    exact ⟨slot, (h.slotOf?_eq_some_iff (h.meaning_of_standsFor ho) (hmarked e he)).2 hholds,
      hplace⟩

end ClassFile.Made

/-- At no place of an array are there so many events that its counter starts over. -/
def Session.Suffices (s : Session) (filters : List Filter) (classes : List ClassFile)
    (events : String → List Event) : Prop :=
  ∀ cls ∈ classes, ∀ scanned record, cls.scanAll s.options filters = .ok scanned →
    s.record? cls.name = some record →
      ∀ place, record.totalAt scanned place (events cls.name) < 0x7fffffff

/-- There is room for the events of short runs. -/
theorem Session.suffices_of_length {s : Session} {filters : List Filter} {classes : List ClassFile}
    {events : String → List Event}
    (h : ∀ cls ∈ classes, (events cls.name).length < 0x7fffffff) :
    s.Suffices filters classes events := by
  intro cls hcls _ _ _ _ place
  exact Nat.lt_of_le_of_lt List.countP_le_length (h cls hcls)

namespace Session.Prepared

variable {s : Session} {filters : List Filter} {kept : List (ClassFile × ClassFile)}
  {pairing : String → Option Pairing} {name : String}

section Run

variable {ι : Type} [DecidableEq ι] {run : Run ι} {registry : Registry} {keeper : ι → Nat}

omit [DecidableEq ι] in
/-- New machines in the registry of the session, or in a later one. -/
theorem alike_start (h : s.Prepared filters kept pairing) (hrun : run.Fits kept)
    (hlater : s.registry.Later registry) (keeper : ι → Nat) :
    (Fleet.start registry (fun i => (run.of i).2) keeper).Alike pairing (fun i => (run.of i).1)
      fun i => .start (run.of i).1 {} 0 where
  regular := hlater.regular
  paired i p hp := by
    have hholds := h.holds _ (hrun.of i)
    rw [hp] at hholds
    obtain ⟨_, record, laidOut, _, -, -, hslots, hcls', rfl⟩ := hholds
    have hslots' := (hlater.slotCount? _).trans hslots
    have hstart := ((run.of i).1.pairing (s.options.probeStyle (run.of i).1) laidOut
      record.slotCount).machines_start {} 0 (keeper i) hlater.regular hslots'
    simp only [Fleet.start, hcls']
    exact hstart
  quiet i hp := by
    have hholds := h.holds _ (hrun.of i)
    rw [hp] at hholds
    simp only [Fleet.start, hholds.2.2]
    exact quiet_start _ _ _

/-- What a run makes of the registry of the session, or of a later one. -/
theorem told_of_run (h : s.Prepared filters kept pairing)
    (hcls : ∀ cls ∈ kept.map Prod.fst, cls.Admissible) (hrun : run.Fits kept)
    (hlater : s.registry.Later registry) (hlimit : run.Completes keeper registry) :
    s.registry.Later (run.execute keeper registry).2 ∧
      (∀ name p, pairing name = some p →
        p.Told registry (run.events name) (run.execute keeper registry).2) ∧
      ∀ name, pairing name = none →
        (run.execute keeper registry).2.lookup? name = registry.lookup? name ∧
        (run.execute keeper registry).2.tracker.mask? name = registry.tracker.mask? name := by
  have hgood : ∀ name p, pairing name = some p → p.Good ∧ p.cls.name = name := by
    intro name p hp
    obtain ⟨cls, scanned, record, laidOut, meanings, hmem, rfl, hmade, -, -, rfl⟩ :=
      h.exists_made hp
    exact ⟨hmade.good (hcls cls hmem), rfl⟩
  have hpaired : ∀ i p, pairing (run.of i).1.name = some p → p.cls = (run.of i).1 := by
    intro i p hp
    have hholds := h.holds _ (hrun.of i)
    rw [hp] at hholds
    obtain ⟨_, _, _, _, -, -, -, -, rfl⟩ := hholds
    rfl
  obtain ⟨hafter, htold, hothers⟩ := (h.alike_start hrun hlater keeper).invokeAll
    (fun i p hp => ⟨(hgood _ p hp).1, hpaired i p hp⟩)
    (fun i _ => hcls _ (List.mem_map_of_mem (hrun.of i))) hrun.callable hlimit
  exact ⟨hlater.trans hafter, fun name p hp => htold name p hp (hgood name p hp).2, hothers⟩

end Run

/-- Nothing is told of a class without pairing. -/
theorem tally_eq_blank (h : s.Prepared filters kept pairing) (hp : pairing name = none)
    {registry : Registry} (hlater : s.registry.Later registry)
    (hlookup : registry.lookup? name = none) (hmask : registry.tracker.mask? name = none) :
    registry.tally name = .blank 0 := by
  have hslots := (hlater.slotCount? name).trans (h.plain hp).1
  simp [Registry.tally, Registry.counters?, hlookup, hmask, hslots, Tally.blank]

/-! ## Two runs -/

section Runs

variable {ι₁ ι₂ : Type} [DecidableEq ι₁] [DecidableEq ι₂] {run₁ : Run ι₁} {run₂ : Run ι₂}
  {keeper₁ keeper₁' : ι₁ → Nat} {keeper₂ keeper₂' : ι₂ → Nat}

/-- The registry after both runs tells what the registries after each of them tell, put
together. -/
theorem tally_join (h : s.Prepared filters kept pairing)
    (hcls : ∀ cls ∈ kept.map Prod.fst, cls.Admissible) (hcount : s.options.hits = .count)
    (hrun₁ : run₁.Fits kept) (hrun₂ : run₂.Fits kept)
    (hlimit₁ : run₁.Completes keeper₁ s.registry) (hlimit₂ : run₂.Completes keeper₂ s.registry)
    (hlimit₁' : run₁.Completes keeper₁' s.registry)
    (hlimit₂' : run₂.Completes keeper₂' (run₁.execute keeper₁' s.registry).2)
    (hfew : s.Suffices filters (kept.map Prod.fst) fun name =>
      run₁.events name ++ run₂.events name) (name : String) :
    (run₂.execute keeper₂' (run₁.execute keeper₁' s.registry).2).2.tally name =
      ((run₁.execute keeper₁ s.registry).2.tally name).join
        ((run₂.execute keeper₂ s.registry).2.tally name) := by
  have hstart := Registry.Later.refl h.unused.regular
  obtain ⟨hlater₁, htold₁, hothers₁⟩ := h.told_of_run hcls hrun₁ hstart hlimit₁
  obtain ⟨hlater₂, htold₂, hothers₂⟩ := h.told_of_run hcls hrun₂ hstart hlimit₂
  obtain ⟨hlater₁', htold₁', hothers₁'⟩ := h.told_of_run hcls hrun₁ hstart hlimit₁'
  obtain ⟨hlater₂', htold₂', hothers₂'⟩ := h.told_of_run hcls hrun₂ hlater₁' hlimit₂'
  cases hp : pairing name with
  | some p =>
      obtain ⟨cls, scanned, record, laidOut, meanings, hmem, rfl, hmade, hrecord, hslots, rfl⟩ :=
        h.exists_made hp
      have hgood := hmade.good (hcls cls hmem)
      have htally₁ := (htold₁ _ _ hp).tally
      have htally₂ := (htold₂ _ _ hp).tally
      have htally₁' := (htold₁' _ _ hp).tally
      have htally₂' := (htold₂' _ _ hp).tally
      have hblank : s.registry.tally cls.name = .blank record.slotCount := h.unused.tally hslots
      simp only [ClassFile.pairing, hblank] at htally₁ htally₂ htally₁' htally₂'
      have hmarked := List.forall_mem_append.2 ⟨(htold₁ _ _ hp).marked, (htold₂ _ _ hp).marked⟩
      have hjoin := hgood.noteAll_append_eq_join hcount (htold₂ _ _ hp).opened fun place =>
        Nat.lt_of_le_of_lt (Nat.le_of_eq (hmade.countP_eq_totalAt place hmarked))
          (hfew cls hmem scanned record hmade.scan hrecord place)
      rw [Pairing.noteAll_append] at hjoin
      rw [htally₂', htally₁', htally₁, htally₂]
      exact hjoin
  | none =>
      have hlookup := h.unused.arrays name
      have hmask := h.unused.masks name
      rw [h.tally_eq_blank hp hlater₁ ((hothers₁ name hp).1.trans hlookup)
          ((hothers₁ name hp).2.trans hmask),
        h.tally_eq_blank hp hlater₂ ((hothers₂ name hp).1.trans hlookup)
          ((hothers₂ name hp).2.trans hmask),
        h.tally_eq_blank hp hlater₂' ((hothers₂' name hp).1.trans
          ((hothers₁' name hp).1.trans hlookup))
          ((hothers₂' name hp).2.trans ((hothers₁' name hp).2.trans hmask))]
      rfl

end Runs

/-- A record of the session with what a later registry tells. -/
theorem filled_later (h : s.Prepared filters kept pairing) {registry : Registry}
    (hlater : s.registry.Later registry) {record : ClassRecord}
    (hrecord : s.record? name = some record) :
    ({ s with registry } : Session).filled record =
      { record.applyHits (registry.tally name).counts with
        trace := if s.options.tracking then (registry.tally name).trace else record.trace } := by
  obtain rfl := h.name_record hrecord
  refine filled_eq { s with registry } fun hcounters => ?_
  cases hp : pairing record.name with
  | none => exact ((h.plain hp).2 record hrecord).2
  | some p =>
      obtain ⟨_, _, _, _, _, -, -, -, -, hslots, -⟩ := h.exists_made hp
      have hsome := Registry.counters?_eq_some ((hlater.slotCount? _).trans hslots)
      rw [hcounters] at hsome
      cases hsome

/-- Snapshots with what later registries tell. -/
theorem snapshot_later (h : s.Prepared filters kept pairing) (registry : Registry) :
    ({ s with registry } : Session).snapshot =
      { mode := s.mode
        classes := s.records.mapValues fun _ record =>
          ({ s with registry } : Session).filled record } :=
  snapshot_eq { s with registry } fun _ _ => h.name_record

end Session.Prepared

/-- Classes with different names are instrumented in new sessions that count.  The snapshot of a
session that runs some calls, merged into the one of a session that ran others before, is the
snapshot of a session that runs all of them.  No machine reaches the limit of steps and no counter
starts over; the machines may keep the names of their classes as they like.  The classes leave room
for the labels of windows (`Body.Roomy`). -/
theorem Session.snapshotMerged_snapshot {options : Options} (hcount : options.hits = .count)
    {filters : List Filter} {classes : List ClassFile}
    (hnames : (classes.map ClassFile.name).Nodup) (hcls : ∀ cls ∈ classes, cls.Admissible)
    {kept : List (ClassFile × ClassFile)} {s : Session}
    (h : ({ options } : Session).instrumentAll filters classes = (kept, s)) {ι₁ ι₂ : Type}
    [DecidableEq ι₁] [DecidableEq ι₂] {run₁ : Run ι₁} {run₂ : Run ι₂} (hrun₁ : run₁.Fits kept)
    (hrun₂ : run₂.Fits kept) {keeper₁ keeper₁' : ι₁ → Nat} {keeper₂ keeper₂' : ι₂ → Nat}
    (hlimit₁ : run₁.Completes keeper₁ s.registry) (hlimit₂ : run₂.Completes keeper₂ s.registry)
    (hlimit₁' : run₁.Completes keeper₁' s.registry)
    (hlimit₂' : run₂.Completes keeper₂' (run₁.execute keeper₁' s.registry).2)
    (hfew : s.Suffices filters classes fun name => run₁.events name ++ run₂.events name) :
    ({ s with registry := (run₂.execute keeper₂ s.registry).2 } : Session).snapshotMerged
        ({ s with registry := (run₁.execute keeper₁ s.registry).2 } : Session).snapshot =
      ({ s with
        registry := (run₂.execute keeper₂' (run₁.execute keeper₁' s.registry).2).2 } :
          Session).snapshot := by
  obtain ⟨rfl, rfl, pairing, hprepared⟩ := prepared_instrumentAll hnames h
  have hstart := Registry.Later.refl hprepared.unused.regular
  have hlater₁ := (hprepared.told_of_run hcls hrun₁ hstart hlimit₁).1
  have hlater₂ := (hprepared.told_of_run hcls hrun₂ hstart hlimit₂).1
  have hlater₁' := (hprepared.told_of_run hcls hrun₁ hstart hlimit₁').1
  have hlater₂' := (hprepared.told_of_run hcls hrun₂ hlater₁' hlimit₂').1
  simp only [snapshotMerged, hprepared.snapshot_later, Snapshot.merge, Mode.merge_self]
  refine congrArg (Snapshot.mk s.mode) (SortedMap.ext fun name => ?_)
  rw [SortedMap.get?_union, SortedMap.get?_mapValues, SortedMap.get?_mapValues,
    SortedMap.get?_mapValues]
  cases hrecord : s.records.get? name with
  | none => rfl
  | some record =>
      have htally := hprepared.tally_join hcls hcount hrun₁ hrun₂ hlimit₁ hlimit₂
        hlimit₁' hlimit₂' hfew name
      refine congrArg some ?_
      dsimp only
      rw [hprepared.filled_later hlater₁ hrecord, hprepared.filled_later hlater₂ hrecord,
        hprepared.filled_later hlater₂' hrecord, htally, record.merge_applyHits]
      split
      · rfl
      · rw [joinOption_self zipLongest_or_self]
        rfl

/-! ## One call in each session -/

namespace Sign

def run (n : Int32) : Run Unit where
  of _ := (cls, probed)
  calls := [((), ⟨"negative", "(I)I", [n]⟩)]

/-- The session that has instrumented the class. -/
def session : Session :=
  ({ options := {} } : Session).register laid.1

/-- A session after a call. -/
def ran (n : Int32) (keeper : Nat) (s : Session) : Session :=
  { s with registry := ((run n).execute (fun _ => keeper) s.registry).2 }

theorem instrumentAll_cls : ({ options := {} } : Session).instrumentAll [] [cls] =
    ([(cls, probed)], session) := by
  simp only [Session.instrumentAll, instrument_cls]
  rfl

theorem fits_run (n : Int32) : (run n).Fits [(cls, probed)] where
  of _ := List.mem_singleton_self _
  callable := by simp [run, callable]

theorem completes_run {n : Int32} (result : Int32) {keeper : Nat} {registry : Registry}
    (h : ((run n).execute (fun _ => keeper) registry).1 = [.ok (some result)]) :
    (run n).Completes (fun _ => keeper) registry := by
  simp [Run.Completes, h]

theorem suffices_run : session.Suffices [] [cls] fun name =>
    (run 5).events name ++ (run (-5)).events name := by
  refine Session.suffices_of_length ?_
  rintro _ (⟨⟩ | ⟨_, ⟨⟩⟩)
  have hlength : ((run 5).events cls.name ++ (run (-5)).events cls.name).length = 6 := by
    with_unfolding_all rfl
  rw [hlength]
  decide

end Sign

theorem Session.snapshotMerged_snapshot_sign :
    (Sign.ran (-5) 1 Sign.session).snapshotMerged (Sign.ran 5 1 Sign.session).snapshot =
        (Sign.ran (-5) 2 (Sign.ran 5 1 Sign.session)).snapshot ∧
      ((Sign.ran (-5) 2 (Sign.ran 5 1 Sign.session)).snapshot.class? "demo/Sign").map
        ClassRecord.hits = some [2, 1, 1] := by
  constructor
  · refine snapshotMerged_snapshot rfl (by simp) (by simpa using Sign.admissible)
      Sign.instrumentAll_cls (Sign.fits_run 5) (Sign.fits_run (-5)) ?_ ?_ ?_ ?_ Sign.suffices_run
    · exact Sign.completes_run 0 (by with_unfolding_all rfl)
    · exact Sign.completes_run 1 (by with_unfolding_all rfl)
    · exact Sign.completes_run 0 (by with_unfolding_all rfl)
    · exact Sign.completes_run 1 (by with_unfolding_all rfl)
  · with_unfolding_all rfl

end BytecodeCoverage
