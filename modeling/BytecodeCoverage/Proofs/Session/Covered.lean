import BytecodeCoverage.Proofs.Coverage.Totals
import BytecodeCoverage.Proofs.Session.Bypassing
import BytecodeCoverage.Proofs.Session.Merged

/-!
# Lines of branches

In a snapshot, the outcomes of a line have the counters of the branches that were kept of the
line.  If control gets to none of them around the markers of the line, then a line with a hit
outcome has hits itself.  Otherwise it may have none, and count as not covered.

**Main definitions.**
* `Both.cls`: a class with a branch that is reached around the marker of its line.

**Results.**
* `ClassFile.Made.exists_of_mem_branchSlots`: what the slots of the outcomes of a line stand for.
* `Session.Prepared.toNat_slotValue`: the counters after a run.
* `Session.covered_of_outcome`: lines with hit outcomes.
* `Session.uncovered_of_outcome_both`: a line with a hit outcome that is not covered.
-/

namespace BytecodeCoverage

open Machine

/-! ## The outcomes of a line -/

theorem LineRecord.status_ne_uncovered {line : LineRecord} (h : line.hits ≠ 0) :
    line.status ≠ .uncovered := by
  rw [status, Status.ofCounts, if_neg h]
  split <;> exact Status.noConfusion

theorem exists_of_mem_survivingJumpsOn {number : UInt32} {scanned : List ScannedMethod}
    {e : Nat × JumpSite} (h : e ∈ survivingJumpsOn number scanned) :
    ∃ m ∈ scanned, m.index = e.1 ∧ e.2.line = number ∧ Kept.jump e.2 ∈ m.scan.kept := by
  obtain ⟨m, hm, he⟩ := List.mem_flatMap.1 h
  obtain ⟨site, hsite, rfl⟩ := List.mem_map.1 he
  obtain ⟨hkept, hline⟩ := List.mem_filter.1 hsite
  exact ⟨m, hm, rfl, of_decide_eq_true hline, Scan.mem_kept.2 (.inr (.inl ⟨site, hkept, rfl⟩))⟩

theorem exists_of_mem_survivingSwitchesOn {number : UInt32} {scanned : List ScannedMethod}
    {e : Nat × SwitchSite} (h : e ∈ survivingSwitchesOn number scanned) :
    ∃ m ∈ scanned, m.index = e.1 ∧ e.2.line = number ∧ Kept.switch e.2 ∈ m.scan.kept := by
  obtain ⟨m, hm, he⟩ := List.mem_flatMap.1 h
  obtain ⟨site, hsite, rfl⟩ := List.mem_map.1 he
  obtain ⟨hkept, hline⟩ := List.mem_filter.1 hsite
  exact ⟨m, hm, rfl, of_decide_eq_true hline, Scan.mem_kept.2 (.inr (.inr ⟨site, hkept, rfl⟩))⟩

namespace ClassFile.Made

variable {cls : ClassFile} {options : Options} {filters : List Filter}
  {scanned : List ScannedMethod} {record : ClassRecord}
  {laidOut : List (ScannedMethod × MethodSlots)} {meanings : List Occurrence}

/-- The slots of the outcomes of a line stand for deeds of branches that were kept of the line. -/
theorem exists_of_mem_branchSlots (h : cls.Made options filters scanned record laidOut meanings)
    {number : UInt32} {line : LineRecord} (hline : record.line? number = some line) {slot : Nat}
    (hslot : slot ∈ line.branchSlots) :
    ∃ m ∈ scanned, ∃ kept ∈ m.scan.kept, kept.number = number ∧ ∃ index deed,
      kept.branch? = some index ∧
      record.StandsFor scanned slot (.performs m.index index deed) := by
  rcases List.mem_append.1 hslot with hslot | hslot
  · obtain ⟨jump, hjump, hslot⟩ := List.mem_flatMap.1 hslot
    obtain ⟨k, hk⟩ := List.getElem?_of_mem hjump
    obtain ⟨⟨place, site⟩, hsite, -⟩ := exists_of_forall₂ (h.layout.jumps _ _ hline).flip hk
    rw [jumpsOn_entriesOf _ h.sited] at hsite
    obtain ⟨m, hm, rfl, hnumber, hkept⟩ :=
      exists_of_mem_survivingJumpsOn (List.mem_of_getElem? hsite)
    simp only [JumpRecord.slots, List.mem_cons, List.not_mem_nil, or_false] at hslot
    rcases hslot with rfl | rfl
    · exact ⟨m, hm, _, hkept, hnumber, _, _, rfl, .taken hline hk hsite⟩
    · exact ⟨m, hm, _, hkept, hnumber, _, _, rfl, .notTaken hline hk hsite⟩
  · obtain ⟨switch, hswitch, hslot⟩ := List.mem_flatMap.1 hslot
    obtain ⟨k, hk⟩ := List.getElem?_of_mem hswitch
    obtain ⟨⟨place, site⟩, hsite, -⟩ := exists_of_forall₂ (h.layout.switches _ _ hline).flip hk
    rw [switchesOn_entriesOf _ h.sited] at hsite
    obtain ⟨m, hm, rfl, hnumber, hkept⟩ :=
      exists_of_mem_survivingSwitchesOn (List.mem_of_getElem? hsite)
    rcases List.mem_append.1 hslot with hslot | hslot
    · obtain ⟨pos, hpos⟩ := List.getElem?_of_mem hslot
      exact ⟨m, hm, _, hkept, hnumber, _, _, rfl, .case hline hk hsite hpos⟩
    · exact ⟨m, hm, _, hkept, hnumber, _, _, rfl,
        .otherwise hline hk hsite (Option.mem_toList.1 hslot)⟩

end ClassFile.Made

/-! ## What is done on guarded lines -/

namespace ScannedMethod

variable {m : ScannedMethod} {number : UInt32} {scanned : List ScannedMethod}
  {events : List Event}

/-- A kept marker that is passed is what the slot of its line stands for. -/
theorem Passes.holds (h : m.Passes number events) (hm : m ∈ scanned) :
    ∃ e ∈ events, (Occurrence.passes number).holds scanned e = true := by
  obtain ⟨i, hi, he⟩ := h
  obtain ⟨marker, hmarker, hindex⟩ := List.mem_map.1 hi
  obtain ⟨hkept, hline⟩ := List.mem_filter.1 hmarker
  refine ⟨_, he, ?_⟩
  simp only [Occurrence.holds, Bool.and_eq_true, List.any_eq_true, decide_eq_true_eq, true_and]
  exact ⟨m, hm, rfl, marker, hkept, hindex, of_decide_eq_true hline⟩

/-- Whatever a branch of the line does, a marker of the line is passed as well. -/
theorem Guards.passes (h : m.Guards number) (hevents : m.Accounted number events) {kept : Kept}
    (hkept : kept ∈ m.scan.kept) (hnumber : kept.number = number) {index : Nat}
    (hindex : kept.branch? = some index) {deed : Deed} (he : ⟨m.index, index, deed⟩ ∈ events)
    (hdone : deed ≠ .entered) : m.Passes number events := by
  refine hevents.resolve_right fun hbypasses => ?_
  exact h kept hkept hnumber index hindex (hbypasses _ he (decide_eq_true hdone) rfl)

end ScannedMethod

namespace Session.Prepared

variable {s : Session} {filters : List Filter} {kept : List (ClassFile × ClassFile)}
  {pairing : String → Option Pairing}

/-- Records in a snapshot have the counters of a later registry. -/
theorem exists_of_class?_snapshot (h : s.Prepared filters kept pairing) {registry : Registry}
    (hlater : s.registry.Later registry) {name : String} {record : ClassRecord}
    (hrecord : ({ s with registry } : Session).snapshot.class? name = some record) :
    ∃ unfilled, s.record? name = some unfilled ∧ record.slotCount = unfilled.slotCount ∧
      ∀ number, record.line? number =
        (unfilled.line? number).map (LineRecord.applyHits (registry.tally name).counts) := by
  rw [h.snapshot_later, Snapshot.class?, SortedMap.get?_mapValues] at hrecord
  obtain ⟨unfilled, hunfilled, rfl⟩ := Option.map_eq_some_iff.1 hrecord
  refine ⟨unfilled, hunfilled, ?_, fun number => ?_⟩
  · rw [h.filled_later hlater hunfilled]
    rfl
  · rw [h.filled_later hlater hunfilled]
    exact SortedMap.get?_mapValues _ _ _

/-! ## Counters after a run -/

section Counters

variable {ι : Type} [DecidableEq ι] {run : Run ι} {keeper : ι → Nat} {cls : ClassFile}
  {scanned : List ScannedMethod} {record : ClassRecord}
  {laidOut : List (ScannedMethod × MethodSlots)} {meanings : List Occurrence}
  {slot : Nat} {o : Occurrence}

variable (h : s.Prepared filters kept pairing) (hcls : ∀ cls ∈ kept.map Prod.fst, cls.Admissible)
  (hrun : run.Fits kept) (hlimit : run.Completes keeper s.registry)
  (hfew : s.Suffices filters (kept.map Prod.fst) run.events) (hmem : cls ∈ kept.map Prod.fst)
  (hmade : cls.Made s.options filters scanned record laidOut meanings)
  (hrecord : s.record? cls.name = some record)
  (hslots : s.registry.slotCount? cls.name = some record.slotCount)
  (hp : pairing cls.name =
    some (cls.pairing (s.options.probeStyle cls) laidOut record.slotCount))
  (hcount : record.slotCount ≤ 0x80000000)

include h hcls hrun hlimit hfew hmem hmade hrecord hslots hp hcount

/-- After a run, the counter of a slot tells how often the classes themselves do what the slot
stands for. -/
theorem toNat_slotValue (ho : record.StandsFor scanned slot o) :
    (slotValue ((run.execute keeper s.registry).2.tally cls.name).counts slot).toNat =
      s.options.hits.told ((run.events cls.name).countP (o.holds scanned)) := by
  have htold := (h.told_of_run hcls hrun (.refl h.unused.regular) hlimit).2.1 _ _ hp
  have htotal := hfew cls hmem scanned record hmade.scan hrecord slot
  rw [← hmade.countP_eq_totalAt slot htold.marked,
    hmade.countP_slotOf? ho (.inr hcount) htold.marked] at htotal
  have hcounts := hmade.counts_of_told (hcls cls hmem) h.unused hslots htold.tally htold.marked ho
    (.inr hcount) htotal
  obtain ⟨n, hn, heq⟩ := Option.map_eq_some_iff.1 hcounts
  rw [slotValue, hn]
  exact heq

/-- After a run, a counter is zero unless what its slot stands for was done. -/
theorem slotValue_ne_zero_iff (ho : record.StandsFor scanned slot o) :
    slotValue ((run.execute keeper s.registry).2.tally cls.name).counts slot ≠ 0 ↔
      ∃ e ∈ run.events cls.name, o.holds scanned e = true := by
  rw [← List.countP_pos_iff, Nat.pos_iff_ne_zero, ne_eq, ne_eq, ← s.options.hits.told_eq_zero,
    ← h.toNat_slotValue hcls hrun hlimit hfew hmem hmade hrecord hslots hp hcount ho]
  exact not_congr UInt32.toNat_inj.symm

/-- After a run, the counter of a line with a hit outcome is not zero, if control gets to no branch
of the line around its markers. -/
theorem slotValue_line_ne_zero {number : UInt32}
    (haccounted : ∀ m ∈ scanned, m.Accounted number (run.events cls.name))
    (hguards : ∀ m ∈ scanned, m.Guards number) {line : LineRecord}
    (hline : record.line? number = some line) (hslot : slot ∈ line.branchSlots)
    (hhit : slotValue ((run.execute keeper s.registry).2.tally cls.name).counts slot ≠ 0) :
    slotValue ((run.execute keeper s.registry).2.tally cls.name).counts line.slot ≠ 0 := by
  obtain ⟨m, hm, branch, hbranch, hnumber, index, deed, hindex, ho⟩ :=
    hmade.exists_of_mem_branchSlots hline hslot
  obtain ⟨e, he, hholds⟩ := (h.slotValue_ne_zero_iff hcls hrun hlimit hfew hmem hmade hrecord
    hslots hp hcount ho).1 hhit
  have hdone := ho.isDone hholds
  obtain rfl := of_decide_eq_true hholds
  have hpasses := (hguards m hm).passes (haccounted m hm) hbranch hnumber hindex he
    (of_decide_eq_true hdone)
  exact (h.slotValue_ne_zero_iff hcls hrun hlimit hfew hmem hmade hrecord hslots hp hcount
    (.line hline)).2 (hpasses.holds hm)

end Counters

end Session.Prepared

/-- Classes with different names are instrumented in a new session, and machines run them.  In the
snapshot that follows, a line with a hit outcome has hits and is not uncovered, if control gets to
no branch of the line around the kept markers of the line.  No machine reaches the limit of steps
and no counter starts over.  The classes leave room for the labels of windows (`Body.Roomy`), and
the class has at most `0x80000000` slots, the numbers that probes can push. -/
theorem Session.covered_of_outcome {options : Options} {filters : List Filter}
    {classes : List ClassFile} (hnames : (classes.map ClassFile.name).Nodup)
    (hcls : ∀ cls ∈ classes, cls.Admissible) {kept : List (ClassFile × ClassFile)} {s : Session}
    (h : ({ options } : Session).instrumentAll filters classes = (kept, s)) {ι : Type}
    [DecidableEq ι] {run : Run ι} (hrun : run.Fits kept) {keeper : ι → Nat}
    (hlimit : run.Completes keeper s.registry) (hfew : s.Suffices filters classes run.events)
    {cls : ClassFile} (hmem : cls ∈ classes) {scanned : List ScannedMethod}
    (hscan : cls.scanAll options filters = .ok scanned) {record : ClassRecord}
    (hrecord : ({ s with registry := (run.execute keeper s.registry).2 } :
      Session).snapshot.class? cls.name = some record)
    (hcount : record.slotCount ≤ 0x80000000) {number : UInt32}
    (hguards : ∀ m ∈ scanned, m.Guards number) {line : LineRecord}
    (hline : record.line? number = some line) {n : UInt32} (hn : n ∈ line.outcomes)
    (hhit : n ≠ 0) : line.hits ≠ 0 ∧ line.status ≠ .uncovered := by
  suffices hhits : line.hits ≠ 0 from ⟨hhits, LineRecord.status_ne_uncovered hhits⟩
  obtain ⟨rfl, rfl, pairing, hprepared⟩ := prepared_instrumentAll hnames h
  obtain ⟨hlater, -, hothers⟩ :=
    hprepared.told_of_run hcls hrun (.refl hprepared.unused.regular) hlimit
  obtain ⟨unfilled, hunfilled, hsame, hlines⟩ := hprepared.exists_of_class?_snapshot hlater hrecord
  rw [hlines] at hline
  obtain ⟨line, hunfilledLine, rfl⟩ := Option.map_eq_some_iff.1 hline
  rw [LineRecord.outcomes_applyHits] at hn
  obtain ⟨slot, hslot, rfl⟩ := List.mem_map.1 hn
  cases hp : pairing cls.name with
  | none =>
      -- The class was left as it is, so there are no counters.
      have hblank := hprepared.tally_eq_blank hp hlater
        ((hothers _ hp).1.trans (hprepared.unused.arrays _))
        ((hothers _ hp).2.trans (hprepared.unused.masks _))
      rw [hblank] at hhit
      exact absurd rfl hhit
  | some p =>
      obtain ⟨other, scanned', record', laidOut, meanings, hother, hname, hmade, hrecord', hslots,
        rfl⟩ := hprepared.exists_made hp
      obtain rfl := List.inj_on_of_nodup_map hnames hother hmem hname
      obtain rfl := Except.ok.inj (hmade.scan.symm.trans hscan)
      obtain rfl := Option.some.inj (hrecord'.symm.trans hunfilled)
      refine hprepared.slotValue_line_ne_zero hcls hrun hlimit hfew hmem hmade hunfilled hslots hp
        (hsame ▸ hcount) ?_ hguards hunfilledLine hslot hhit
      intro m hm
      refine Fleet.accounted_events (fun i => hcls _ (List.mem_map_of_mem (hrun.of i)))
        (fun i hi => ?_) (fun i => quiet_start _ _ _) run.calls
      have hsame := List.inj_on_of_nodup_map hnames (List.mem_map_of_mem (hrun.of i)) hmem hi
      rw [hsame]
      exact (ClassFile.of_scanAll hscan).1 m hm

namespace Sign

theorem guards_scanned : scanned.Guards 3 := by
  intro kept hkept _ index hindex hbypasses
  have hmarker : 0 ∈ scanned.scan.markersOn 3 := by
    with_unfolding_all decide
  obtain rfl := hbypasses.eq_zero hmarker
  rw [kept_scanned] at hkept
  rcases hkept with _ | ⟨_, _ | ⟨_, ⟨⟩⟩⟩ <;> cases hindex

end Sign

/-- The jump of the line falls through, so the line is covered. -/
theorem Session.covered_of_outcome_sign :
    ∃ record line, (Sign.ran (-5) 1 Sign.session).snapshot.class? "demo/Sign" = some record ∧
      record.line? 3 = some line ∧ line.outcomes = [0, 1] ∧ line.hits ≠ 0 ∧
      line.status ≠ .uncovered := by
  have hlimit : (Sign.run (-5)).Completes (fun _ => 1) Sign.session.registry :=
    Sign.completes_run 1 (by with_unfolding_all rfl)
  have hfew : Sign.session.Suffices [] [Sign.cls] (Sign.run (-5)).events := by
    refine suffices_of_length ?_
    rintro _ (⟨⟩ | ⟨_, ⟨⟩⟩)
    have hlength : ((Sign.run (-5)).events Sign.cls.name).length = 3 := by
      with_unfolding_all rfl
    rw [hlength]
    decide
  have hcount : ((Sign.ran (-5) 1 Sign.session).snapshot.class? "demo/Sign").map
      ClassRecord.slotCount = some 3 := by
    with_unfolding_all rfl
  have houtcomes : (((Sign.ran (-5) 1 Sign.session).snapshot.class? "demo/Sign").bind
      fun record => record.line? 3).map LineRecord.outcomes = some [0, 1] := by
    with_unfolding_all rfl
  obtain ⟨line, hline, houtcomes⟩ := Option.map_eq_some_iff.1 houtcomes
  obtain ⟨record, hrecord, hline⟩ := Option.bind_eq_some_iff.1 hline
  rw [hrecord, Option.map_some, Option.some.injEq] at hcount
  refine ⟨record, line, hrecord, hline, houtcomes, ?_⟩
  exact covered_of_outcome (by simp) (by simpa using Sign.admissible) Sign.instrumentAll_cls
    (Sign.fits_run (-5)) hlimit hfew (List.mem_singleton_self _) Sign.scanAll_cls hrecord
    (hcount ▸ by decide) (by simpa using Sign.guards_scanned) hline (n := 1)
    (houtcomes ▸ by decide) (by decide)

/-! ## A branch that is reached around the marker of its line -/

namespace Both

/-- Whether the last argument or both of the others are not zero; its test is on the line of the
second one. -/
def body : Body :=
  .ofParts [.line 1, .localVar .iload 0, .jump .ifeq ⟨0⟩, .line 2, .localVar .iload 1,
    .jump .ifne ⟨1⟩, .label ⟨0⟩, .localVar .iload 2, .jump .ifeq ⟨2⟩, .label ⟨1⟩, .line 3,
    .simple .iconst1, .simple .ireturn, .label ⟨2⟩, .line 4, .simple .iconst0, .simple .ireturn]
    [] 1 3

def method : Method where
  name := "any"
  descriptor := "(III)I"
  access := ⟨0x9⟩
  body := some body

def cls : ClassFile where
  name := "demo/Both"
  superName := some "java/lang/Object"
  access := ⟨0x21⟩
  major := 52
  sourceFile := none
  sourceDebug := none
  fields := []
  methods := [method]

/-- The method with its scan, which keeps the lines and the jumps. -/
def scanned : ScannedMethod :=
  ⟨0, "any(III)I", body, Options.scan {} [] ⟨cls, method⟩ body⟩

/-- The kept entries of the method. -/
def entries : List Kept :=
  [.line ⟨0, 1, false⟩, .jump ⟨2, 1, false⟩, .line ⟨3, 2, false⟩, .jump ⟨5, 2, false⟩,
    .jump ⟨8, 2, false⟩, .line ⟨10, 3, false⟩, .line ⟨14, 4, false⟩]

theorem kept_scanned : scanned.scan.kept = entries :=
  Scan.kept_eq_of_perm (by decide) (by decide)

/-- Control gets to the last test around the marker of its line. -/
theorem bypasses_scanned : scanned.Bypasses 2 8 := by
  have hmarkers : scanned.scan.markersOn 2 = [3] := by with_unfolding_all rfl
  have hload : scanned.Bypasses 2 1 :=
    .step .start (by simp [hmarkers]) ⟨_, rfl, .inl ⟨rfl, rfl⟩⟩
  have htest : scanned.Bypasses 2 2 := hload.step (by simp [hmarkers]) ⟨_, rfl, .inl ⟨rfl, rfl⟩⟩
  have hlabel : scanned.Bypasses 2 6 :=
    htest.step (by simp [hmarkers]) ⟨_, rfl, .inr ⟨⟨0⟩, List.mem_singleton_self _, rfl⟩⟩
  have hload' : scanned.Bypasses 2 7 :=
    hlabel.step (by simp [hmarkers]) ⟨_, rfl, .inl ⟨rfl, rfl⟩⟩
  exact hload'.step (by simp [hmarkers]) ⟨_, rfl, .inl ⟨rfl, rfl⟩⟩

/-- The record of the class and the slots of its method. -/
def laid : ClassRecord × MethodSlots :=
  ClassRecord.assignAll scanned.signature entries cls.blankRecord {}

/-- The class with probes. -/
def probed : ClassFile :=
  cls.withProbes (({} : Options).probeStyle cls) [(scanned, laid.2)]

/-- The session that has instrumented the class. -/
def session : Session :=
  ({ options := {} } : Session).register laid.1

theorem instrument_cls : ({ options := {} } : Session).instrument [] cls =
    (.probed probed, session) :=
  Session.instrument_of_kept (by decide) rfl rfl kept_scanned rfl

theorem instrumentAll_cls : ({ options := {} } : Session).instrumentAll [] [cls] =
    ([(cls, probed)], session) := by
  simp only [Session.instrumentAll, instrument_cls]
  rfl

/-- The first argument is zero, and the last one is not. -/
def run : Run Unit where
  of _ := (cls, probed)
  calls := [((), ⟨"any", "(III)I", [0, 0, 1]⟩)]

theorem fits_run : run.Fits [(cls, probed)] where
  of _ := List.mem_singleton_self _
  callable := by
    rintro _ (⟨⟩ | ⟨_, ⟨⟩⟩)
    refine ⟨rfl, ?_⟩
    rintro _ ⟨⟩
    exact Nat.le_refl 3

theorem suffices_run : session.Suffices [] [cls] run.events := by
  refine Session.suffices_of_length ?_
  rintro _ (⟨⟩ | ⟨_, ⟨⟩⟩)
  have hlength : (run.events cls.name).length = 5 := by
    with_unfolding_all rfl
  rw [hlength]
  decide

/-- The session after the run. -/
def ran : Session :=
  { session with registry := (run.execute (fun _ => 1) session.registry).2 }

set_option maxRecDepth 1024 in
theorem results_run : (run.execute (fun _ => 1) session.registry).1 = [.ok (some 1)] := by
  with_unfolding_all rfl

set_option maxRecDepth 1024 in
theorem lines_ran : ((ran.snapshot.class? "demo/Both").bind fun record => record.line? 2).map
    (fun line => (line.outcomes, line.hits, line.status)) = some ([0, 0, 0, 1], 0, .uncovered) := by
  with_unfolding_all rfl

end Both

/-- Without the condition on branches, a line with a hit outcome may be uncovered: control gets
from the first test of the method to the last one around the marker of its line. -/
theorem Session.uncovered_of_outcome_both :
    Both.body.check = .ok () ∧
      ({ options := {} } : Session).instrumentAll [] [Both.cls] =
        ([(Both.cls, Both.probed)], Both.session) ∧
      Both.run.Fits [(Both.cls, Both.probed)] ∧
      (Both.run.execute (fun _ => 1) Both.session.registry).1 = [.ok (some 1)] ∧
      Both.session.Suffices [] [Both.cls] Both.run.events ∧ Both.scanned.Bypasses 2 8 ∧
      ∃ record line, Both.ran.snapshot.class? "demo/Both" = some record ∧
        record.line? 2 = some line ∧ line.outcomes = [0, 0, 0, 1] ∧ line.hits = 0 ∧
        line.status = .uncovered := by
  obtain ⟨line, hline, hcounts⟩ := Option.map_eq_some_iff.1 Both.lines_ran
  obtain ⟨record, hrecord, hline⟩ := Option.bind_eq_some_iff.1 hline
  simp only [Prod.mk.injEq] at hcounts
  exact ⟨rfl, Both.instrumentAll_cls, Both.fits_run, Both.results_run, Both.suffices_run,
    Both.bypasses_scanned, record, line, hrecord, hline, hcounts⟩

end BytecodeCoverage
