import BytecodeCoverage.Proofs.Session.Covered
import BytecodeCoverage.Proofs.Session.Sound

/-!
# Reported hits

The record of a class in a snapshot reports hits of lines and of the outcomes of branches, which it
gets from the array of the class.  As long as no class name is rewritten with different code, hits are
reported only of what was done.  Otherwise the record is that of the latest version, while the array
may still hold what earlier ones have counted.

**Main definitions.**
* `ClassRecord.Reports`: the hits that are reported of an occurrence.

**Results.**
* `ClassRecord.reports_iff`: reported hits are counters of slots.
* `Session.done_of_reports`: what has hits was done.
* `Session.hits_of_former_sign`: hits of a line that was never executed.
-/

namespace BytecodeCoverage

open Machine

/-- The hits that a record reports of an occurrence, given the scanned methods. -/
inductive ClassRecord.Reports (record : ClassRecord) (scanned : List ScannedMethod) :
    Occurrence → UInt32 → Prop
  | line {number : UInt32} {line : LineRecord} :
      record.line? number = some line → Reports record scanned (.passes number) line.hits
  | taken {number : UInt32} {line : LineRecord} {k place : Nat} {jump : JumpRecord}
      {site : JumpSite} :
      record.line? number = some line → line.jumps[k]? = some jump →
      (survivingJumpsOn number scanned)[k]? = some (place, site) →
      Reports record scanned (.performs place site.index .taken) jump.takenHits
  | notTaken {number : UInt32} {line : LineRecord} {k place : Nat} {jump : JumpRecord}
      {site : JumpSite} :
      record.line? number = some line → line.jumps[k]? = some jump →
      (survivingJumpsOn number scanned)[k]? = some (place, site) →
      Reports record scanned (.performs place site.index .notTaken) jump.notTakenHits
  | case {number : UInt32} {line : LineRecord} {k place pos : Nat} {switch : SwitchRecord}
      {site : SwitchSite} {hits : UInt32} :
      record.line? number = some line → line.switches[k]? = some switch →
      (survivingSwitchesOn number scanned)[k]? = some (place, site) →
      switch.keyHits[pos]? = some hits →
      Reports record scanned (.performs place site.index (.case pos)) hits
  | otherwise {number : UInt32} {line : LineRecord} {k place : Nat} {switch : SwitchRecord}
      {site : SwitchSite} :
      record.line? number = some line → line.switches[k]? = some switch →
      (survivingSwitchesOn number scanned)[k]? = some (place, site) →
      switch.defaultSlot.isSome →
      Reports record scanned (.performs place site.index .otherwise) switch.defaultHits

/-! ## Reported hits are counters -/

section Copied

variable {record filled : ClassRecord} {scanned : List ScannedMethod} {counts : List UInt32}

/-- The second record has copied its hits from the counters. -/
def ClassRecord.Copied (record : ClassRecord) (counts : List UInt32) (filled : ClassRecord) : Prop :=
  ∀ number, filled.line? number = (record.line? number).map (LineRecord.applyHits counts)

namespace ClassRecord.Copied

variable (h : record.Copied counts filled) {number : UInt32} {line : LineRecord}

include h

theorem line_iff :
    filled.line? number = some line ↔
      ∃ old, record.line? number = some old ∧ old.applyHits counts = line := by
  rw [h number, Option.map_eq_some_iff]

/-- The hits that are reported are the counters of the slots that stand for the occurrence. -/
theorem reports_iff {o : Occurrence} {n : UInt32} :
    filled.Reports scanned o n ↔
      ∃ slot, record.StandsFor scanned slot o ∧ slotValue counts slot = n := by
  have hjumps : ∀ (old : LineRecord) (k : Nat), (old.applyHits counts).jumps[k]? =
      (old.jumps[k]?).map (JumpRecord.applyHits counts) := fun _ _ => List.getElem?_map ..
  have hswitches : ∀ (old : LineRecord) (k : Nat), (old.applyHits counts).switches[k]? =
      (old.switches[k]?).map (SwitchRecord.applyHits counts) := fun _ _ => List.getElem?_map ..
  have hkeys : ∀ (old : SwitchRecord) (pos : Nat), (old.applyHits counts).keyHits[pos]? =
      (old.keySlots[pos]?).map (slotValue counts) := fun _ _ => List.getElem?_map ..
  constructor
  · intro hreports
    cases hreports with
    | line hline =>
        obtain ⟨old, hold, rfl⟩ := h.line_iff.1 hline
        exact ⟨_, .line hold, rfl⟩
    | taken hline hjump hsite =>
        obtain ⟨old, hold, rfl⟩ := h.line_iff.1 hline
        obtain ⟨jump, hfound, rfl⟩ := Option.map_eq_some_iff.1 ((hjumps ..).symm.trans hjump)
        exact ⟨_, .taken hold hfound hsite, rfl⟩
    | notTaken hline hjump hsite =>
        obtain ⟨old, hold, rfl⟩ := h.line_iff.1 hline
        obtain ⟨jump, hfound, rfl⟩ := Option.map_eq_some_iff.1 ((hjumps ..).symm.trans hjump)
        exact ⟨_, .notTaken hold hfound hsite, rfl⟩
    | case hline hswitch hsite hhits =>
        obtain ⟨old, hold, rfl⟩ := h.line_iff.1 hline
        obtain ⟨switch, hfound, rfl⟩ :=
          Option.map_eq_some_iff.1 ((hswitches ..).symm.trans hswitch)
        obtain ⟨slot, hslot, rfl⟩ := Option.map_eq_some_iff.1 ((hkeys ..).symm.trans hhits)
        exact ⟨slot, .case hold hfound hsite hslot, rfl⟩
    | otherwise hline hswitch hsite hdefault =>
        obtain ⟨old, hold, rfl⟩ := h.line_iff.1 hline
        obtain ⟨switch, hfound, rfl⟩ :=
          Option.map_eq_some_iff.1 ((hswitches ..).symm.trans hswitch)
        obtain ⟨slot, hslot⟩ := Option.isSome_iff_exists.1 hdefault
        have hslot : switch.defaultSlot = some slot := hslot
        refine ⟨slot, .otherwise hold hfound hsite hslot, ?_⟩
        simp only [SwitchRecord.applyHits, hslot]
  · rintro ⟨slot, hstands, rfl⟩
    cases hstands with
    | line hline => exact .line (h.line_iff.2 ⟨_, hline, rfl⟩)
    | taken hline hjump hsite =>
        exact .taken (h.line_iff.2 ⟨_, hline, rfl⟩)
          ((hjumps ..).trans (congrArg (Option.map _) hjump)) hsite
    | notTaken hline hjump hsite =>
        exact .notTaken (h.line_iff.2 ⟨_, hline, rfl⟩)
          ((hjumps ..).trans (congrArg (Option.map _) hjump)) hsite
    | case hline hswitch hsite hslot =>
        exact .case (h.line_iff.2 ⟨_, hline, rfl⟩)
          ((hswitches ..).trans (congrArg (Option.map _) hswitch)) hsite
          ((hkeys ..).trans (congrArg (Option.map _) hslot))
    | @otherwise _ _ _ _ slot switch site hline hswitch hsite hslot =>
        have hhits : (switch.applyHits counts).defaultHits = slotValue counts slot := by
          simp only [SwitchRecord.applyHits, hslot]
        rw [← hhits]
        exact .otherwise (h.line_iff.2 ⟨_, hline, rfl⟩)
          ((hswitches ..).trans (congrArg (Option.map _) hswitch)) hsite
          (Option.isSome_iff_exists.2 ⟨slot, hslot⟩)

/-- Whatever hits a line and its outcomes have are reported of something. -/
theorem exists_reports {cls : ClassFile} {options : Options} {filters : List Filter}
    {laidOut : List (ScannedMethod × MethodSlots)} {meanings : List Occurrence}
    (hmade : cls.Made options filters scanned record laidOut meanings)
    (hline : filled.line? number = some line) {n : UInt32} (hn : n ∈ line.hits :: line.outcomes) :
    ∃ o, filled.Reports scanned o n := by
  obtain ⟨old, hold, rfl⟩ := h.line_iff.1 hline
  rcases List.mem_cons.1 hn with rfl | hn
  · exact ⟨_, .line hline⟩
  · rw [LineRecord.outcomes_applyHits] at hn
    obtain ⟨slot, hslot, rfl⟩ := List.mem_map.1 hn
    obtain ⟨_, _, _, _, _, index, deed, _, hstands⟩ := hmade.exists_of_mem_branchSlots hold hslot
    exact ⟨_, h.reports_iff.2 ⟨slot, hstands, rfl⟩⟩

end ClassRecord.Copied

end Copied

/-! ## Snapshots after a history -/

theorem Session.isEmpty_lines_filled (s : Session) (record : ClassRecord) :
    (s.filled record).lines.isEmpty = record.lines.isEmpty := by
  have hmapped : ∀ hits, (record.applyHits hits).lines.isEmpty = record.lines.isEmpty := by
    intro hits
    exact List.isEmpty_map
  simp only [filled]
  cases s.registry.counters? record.name with
  | some hits => split <;> exact hmapped hits
  | none => split <;> rfl

namespace Scene.Sound

variable {options : Options} {filters : List Filter} {scene : Scene}
  (h : scene.Sound options filters)

include h

/-- A record with lines has copied its hits from the counters of a version. -/
theorem exists_copied {name : String} {filled : ClassRecord}
    (hfilled : scene.session.snapshot.class? name = some filled)
    (hlines : filled.lines.isEmpty = false) :
    ∃ v ∈ scene.versions, v.original.name = name ∧ ∃ record scanned laidOut meanings,
      v.original.Made options filters scanned record laidOut meanings ∧
      scene.session.record? name = some record ∧
      filled.slotCount = record.slotCount ∧
      record.Copied (scene.registry.tally name).counts filled := by
  rw [Session.snapshot_eq scene.session fun name record hrecord => (h.record name record hrecord).1,
    Snapshot.class?, SortedMap.get?_mapValues] at hfilled
  obtain ⟨record, hrecord, rfl⟩ := Option.map_eq_some_iff.1 hfilled
  obtain ⟨rfl, hversion⟩ := h.record name record hrecord
  rw [Session.isEmpty_lines_filled] at hlines
  obtain ⟨v, hv, hname, scanned, laidOut, meanings, hmade⟩ := hversion hlines
  have hcounters := Registry.counters?_eq_some (h.version v hv).slots
  rw [hname] at hcounters
  have hknown : scene.session.registry.counters? record.name = none →
      record.applyHits [] = record := by
    intro hnone
    cases hcounters.symm.trans hnone
  have hfill := scene.session.filled_eq hknown
  refine ⟨v, hv, hname, record, scanned, laidOut, meanings, hmade, hrecord, ?_, ?_⟩
  · rw [hfill]
    rfl
  · intro number
    rw [hfill]
    exact SortedMap.get?_mapValues _ _ _

/-- If the counter of a slot is not zero, what the slot stands for was done. -/
theorem exists_done {v : Version} (hv : v ∈ scene.versions) {scanned : List ScannedMethod}
    {record : ClassRecord} {laidOut : List (ScannedMethod × MethodSlots)}
    {meanings : List Occurrence}
    (hmade : v.original.Made options filters scanned record laidOut meanings)
    (hcount : record.slotCount ≤ 0x80000000) {slot : Nat} {o : Occurrence}
    (ho : record.StandsFor scanned slot o)
    (hhit : slotValue (scene.registry.tally v.original.name).counts slot ≠ 0) :
    ∃ e, (v, e) ∈ scene.done ∧ o.holds scanned e = true := by
  cases hn : (scene.registry.tally v.original.name).counts[slot]? with
  | none =>
      rw [slotValue, hn] at hhit
      exact absurd rfl hhit
  | some n =>
      rw [slotValue, hn, Option.getD_some] at hhit
      obtain ⟨hits, hhits, hplace⟩ := Registry.lookup?_of_counts_ne_zero hn hhit
      obtain ⟨e, he, hmarked, hcounted⟩ := h.counted v hv hits hhits slot n hplace hhit
      rw [hmade.pairingIn_eq] at hmarked hcounted
      obtain ⟨slot', hslot', heq⟩ := Option.map_eq_some_iff.1 hcounted
      have hlt := hmade.slotOf?_lt hslot'
      rw [Probe.place] at heq
      obtain rfl : slot' = slot := by omega
      exact ⟨e, he, hmade.holds_of_slotOf? (hmade.meaning_of_standsFor ho) hmarked hslot'⟩

end Scene.Sound

/-- After a history of admissible classes and calls in which no class name is rewritten with different
code, a record with lines in the snapshot is that of a version.  Whatever hits its lines and their
outcomes have are reported of lines and outcomes of the version, and nothing has hits that machines of
the version have not done.  The classes leave room for the labels of windows (`Body.Roomy`), and the
class has at most `0x80000000` slots, the numbers that probes can push. -/
theorem Session.done_of_reports {options : Options} {filters : List Filter} {history : List Move}
    {scene : Scene} (hscene : (Scene.start options).play filters history = scene)
    (hplays : (Scene.start options).Plays filters history) (hfaithful : scene.Faithful)
    {name : String} {record : ClassRecord}
    (hrecord : scene.session.snapshot.class? name = some record)
    (hlines : record.lines.isEmpty = false) (hcount : record.slotCount ≤ 0x80000000) :
    ∃ v ∈ scene.versions, v.original.name = name ∧ ∃ scanned,
      v.original.scanAll options filters = .ok scanned ∧
      scene.session.record? name =
        some (ClassFile.layOut options.instructions scanned v.original.blankRecord).1 ∧
      (∀ number line, record.line? number = some line → ∀ n ∈ line.hits :: line.outcomes,
        ∃ o, record.Reports scanned o n) ∧
      ∀ o n, record.Reports scanned o n → n ≠ 0 →
        ∃ e, (v, e) ∈ scene.done ∧ o.holds scanned e = true := by
  subst hscene
  have hsound := (Scene.sound_start options filters).play hplays hfaithful
  obtain ⟨v, hv, rfl, unfilled, scanned, laidOut, meanings, hmade, hunfilled, hslots, hcopied⟩ :=
    hsound.exists_copied hrecord hlines
  refine ⟨v, hv, rfl, scanned, hmade.scan, by rw [hunfilled, hmade.layOut], ?_, ?_⟩
  · intro number line hline n hn
    exact hcopied.exists_reports hmade hline hn
  · intro o n hreports hne
    obtain ⟨slot, hstands, rfl⟩ := hcopied.reports_iff.1 hreports
    exact hsound.exists_done hv hmade (hslots ▸ hcount) hstands hne

/-! ## The same code twice, and different code -/

namespace Sign

/-- A history in which the class is rewritten with the same code after it was run. -/
def again : List Move :=
  [.instrument cls, .start 0 1, .invoke 0 call, .instrument cls]

/-- The session once the class has been rewritten. -/
def rewritten : Scene :=
  { Scene.start {} with
    session := ({ options := {} } : Session).register laid.1
    versions := [⟨cls, probed⟩] }

/-- The session once the class has been run. -/
def executed : Scene :=
  rewritten.play [] [.start 0 1, .invoke 0 call]

theorem move_start : (Scene.start {}).move [] (.instrument cls) = rewritten :=
  Scene.instrument_eq instrument_cls

theorem move_executed : executed.move [] (.instrument cls) =
    { executed with
      session := executed.session.register laid.1
      versions := executed.versions ++ [⟨cls, probed⟩] } :=
  Scene.instrument_eq (instrument_cls_of rfl)

theorem play_again : (Scene.start {}).play [] again =
    { executed with
      session := executed.session.register laid.1
      versions := executed.versions ++ [⟨cls, probed⟩] } := by
  rw [← move_executed, executed, ← move_start]
  rfl

theorem plays_again : (Scene.start {}).Plays [] again := by
  refine ⟨admissible, ?_⟩
  rw [move_start]
  refine ⟨trivial, ?_, admissible, trivial⟩
  rintro r ⟨⟩
  refine ⟨callable 5, ?_⟩
  have hresult : ((Runner.start ⟨cls, probed⟩ rewritten.registry 1).invoke rewritten.registry
      call).1 = .ok (some 0) := by
    with_unfolding_all rfl
  exact fun h => by cases hresult.symm.trans h

theorem faithful_again : ((Scene.start {}).play [] again).Faithful := by
  have hall : ∀ v ∈ ((Scene.start {}).play [] again).versions, v.original = cls := by
    rw [play_again]
    rintro v (⟨⟩ | ⟨_, ⟨⟩ | ⟨_, ⟨⟩⟩⟩) <;> rfl
  exact fun v hv w hw _ => (hall v hv).trans (hall w hw).symm

theorem former_ne : former ≠ cls := by
  intro h
  have hlengths : [some 3] = [some 8] :=
    congrArg (fun c => c.methods.map fun m => m.body.map fun b => b.code.length) h
  exact absurd hlengths (by decide)

theorem reported_again : (((Scene.start {}).play [] again).session.snapshot.class? "demo/Sign").map
    (fun record => (record.slotCount, record.lines.isEmpty, (record.line? 3).map LineRecord.hits)) =
      some (3, false, some 1) := by
  rw [play_again]
  with_unfolding_all rfl

end Sign

/-- The line was passed by the machine of the class. -/
theorem Session.done_of_reports_sign :
    ∃ record line, ((Scene.start {}).play [] Sign.again).session.snapshot.class? "demo/Sign" =
        some record ∧ record.line? 3 = some line ∧ line.hits = 1 ∧
      ∃ v e, (v, e) ∈ ((Scene.start {}).play [] Sign.again).done ∧ v.original.name = "demo/Sign" ∧
        e.deed = .passed 3 := by
  obtain ⟨record, hrecord, hreported⟩ := Option.map_eq_some_iff.1 Sign.reported_again
  simp only [Prod.mk.injEq] at hreported
  obtain ⟨hslots, hlines, hhits⟩ := hreported
  obtain ⟨line, hline, hhits⟩ := Option.map_eq_some_iff.1 hhits
  refine ⟨record, line, hrecord, hline, hhits, ?_⟩
  obtain ⟨v, -, hname, scanned, -, -, -, hdone⟩ :=
    done_of_reports rfl Sign.plays_again Sign.faithful_again hrecord hlines (hslots ▸ by decide)
  obtain ⟨e, he, hholds⟩ := hdone _ _ (.line hline) (hhits ▸ by decide)
  simp only [Occurrence.holds, Bool.and_eq_true, decide_eq_true_eq] at hholds
  exact ⟨v, e, he, hname, hholds.1⟩

/-- Once an earlier version has been run, the record of the class is that of the later one and has a
hit line, but no machine of the later version has done anything. -/
theorem Session.hits_of_former_sign :
    (Sign.formerRun.play [] [.instrument Sign.cls]).versions =
        [⟨Sign.former, Sign.formerProbed⟩, ⟨Sign.cls, Sign.probed⟩] ∧
      (Sign.formerRun.play [] [.instrument Sign.cls]).session.record? "demo/Sign" =
        some Sign.laid.1 ∧
      (((Sign.formerRun.play [] [.instrument Sign.cls]).session.snapshot.class? "demo/Sign").bind
        fun record => record.line? 3).map LineRecord.hits = some 1 ∧
      ∀ e, (⟨Sign.cls, Sign.probed⟩, e) ∉ (Sign.formerRun.play [] [.instrument Sign.cls]).done := by
  have hplay : Sign.formerRun.play [] [.instrument Sign.cls] = _ :=
    Scene.instrument_eq (Sign.instrument_cls_of Sign.options_formerRun)
  rw [hplay]
  refine ⟨?_, Session.record?_register Sign.formerRun.session Sign.laid.1, ?_, fun e he => ?_⟩
  · rw [Sign.formerRun_eq, Sign.formerIdle_eq]
    rfl
  · rw [Sign.formerRun_eq, Sign.formerIdle_eq]
    with_unfolding_all rfl
  · have hdone : ∀ x ∈ Sign.formerRun.done, x.1.original = Sign.former := by
      rw [Sign.formerRun_eq, Sign.formerIdle_eq]
      intro x hx
      obtain ⟨_, -, rfl⟩ := List.mem_map.1 hx
      rfl
    exact Sign.former_ne (hdone _ he).symm

end BytecodeCoverage
