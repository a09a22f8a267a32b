import BytecodeCoverage.Proofs.Probe.Flagging
import BytecodeCoverage.Proofs.Registry.Masks
import BytecodeCoverage.Proofs.Session.Covered
import BytecodeCoverage.Proofs.Session.Sound

/-!
# Traces of tests

Tests start and end while the classes of a session are run.  When a test ends, its trace lists for
each class the slots of the lines that were passed since a test last started or ended, or since the
beginning.  Nothing depends on whether the test was started, and masks that are made in the middle
of a test miss nothing.

**Main definitions.**
* `ClassRecord.passedSlots`: the slots of the lines that some events pass.
* `TestMove`, `Testing`: histories in which tests start and end.
* `Testing.Exact`: the invariant of such a history.

**Results.**
* `ClassFile.Made.flagOf?_eq_some_iff`: the flag that an event sets.
* `Testing.Exact.step`, `Testing.Exact.play`: every step keeps the invariant.
* `Session.trace_of_test`: the trace that ending a test gives.
-/

namespace BytecodeCoverage

open Machine

/-! ## Slots of lines that are passed -/

/-- The slots of the lines whose kept markers are passed, ascending. -/
def ClassRecord.passedSlots (record : ClassRecord) (scanned : List ScannedMethod)
    (events : List Event) : List Nat :=
  (List.range record.slotCount).filter fun slot =>
    record.lines.entries.any fun e =>
      e.2.slot == slot && events.any ((Occurrence.passes e.1).holds scanned)

theorem ClassRecord.pairwise_passedSlots (record : ClassRecord) (scanned : List ScannedMethod)
    (events : List Event) : (record.passedSlots scanned events).Pairwise (· < ·) :=
  List.pairwise_lt_range.filter _

theorem ClassRecord.mem_passedSlots {record : ClassRecord} {scanned : List ScannedMethod}
    {events : List Event} {slot : Nat} :
    slot ∈ record.passedSlots scanned events ↔ slot < record.slotCount ∧
      ∃ number line, record.line? number = some line ∧ line.slot = slot ∧
        ∃ e ∈ events, (Occurrence.passes number).holds scanned e = true := by
  simp only [passedSlots, List.mem_filter, List.mem_range, List.any_eq_true, Bool.and_eq_true,
    beq_iff_eq, Prod.exists, SortedMap.mem_entries, line?]

/-- What happens when a marker is passed is counted in the slot of a line. -/
theorem ClassRecord.StandsFor.exists_line {record : ClassRecord} {scanned : List ScannedMethod}
    {slot : Nat} {o : Occurrence} {e : Event} {number : UInt32}
    (h : record.StandsFor scanned slot o) (hholds : o.holds scanned e = true)
    (hdeed : e.deed = .passed number) :
    ∃ number line, record.line? number = some line ∧ line.slot = slot ∧ o = .passes number := by
  cases h with
  | line hline => exact ⟨_, _, hline, rfl, rfl⟩
  | _ =>
      obtain rfl := of_decide_eq_true hholds
      cases hdeed

namespace ClassFile.Made

variable {cls : ClassFile} {options : Options} {filters : List Filter}
  {scanned : List ScannedMethod} {record : ClassRecord}
  {laidOut : List (ScannedMethod × MethodSlots)} {meanings : List Occurrence}
  {style : ProbeStyle} {slots : Nat} {e : Event}

/-- An event sets the flag of a slot if it passes a kept marker of the line of the slot. -/
theorem flagOf?_eq_some_iff (h : cls.Made options filters scanned record laidOut meanings)
    (hcount : record.slotCount ≤ 0x80000000)
    (hmarked : (cls.pairing style laidOut slots).Marked e) {slot : Nat} :
    (cls.pairing style laidOut slots).flagOf? e = some slot ↔
      ∃ number line, record.line? number = some line ∧ line.slot = slot ∧
        (Occurrence.passes number).holds scanned e = true := by
  have hplace : ∀ {slot}, (cls.pairing style laidOut slots).slotOf? e = some slot →
      Probe.place slot = slot := by
    intro slot hslot
    have hlt := h.slotOf?_lt hslot
    rw [Probe.place]
    omega
  rw [Pairing.flagOf?_eq_some]
  constructor
  · rintro ⟨⟨number, hdeed⟩, hflag⟩
    obtain ⟨slot, hslot, rfl⟩ := Option.map_eq_some_iff.1 hflag
    rw [hplace hslot]
    obtain ⟨o, ho⟩ := h.exists_standsFor (h.slotOf?_lt hslot)
    have hholds := h.holds_of_slotOf? (h.meaning_of_standsFor ho) hmarked hslot
    obtain ⟨number, line, hline, hsame, rfl⟩ := ho.exists_line hholds hdeed
    exact ⟨number, line, hline, hsame, hholds⟩
  · rintro ⟨number, line, hline, rfl, hholds⟩
    have hslot : (cls.pairing style laidOut slots).slotOf? e = some line.slot :=
      h.slotOf?_of_holds (h.meaning_of_standsFor (.line hline)) hholds
    rw [Occurrence.holds, Bool.and_eq_true, decide_eq_true_eq] at hholds
    exact ⟨⟨number, hholds.1⟩, Option.map_eq_some_iff.2 ⟨_, hslot, hplace hslot⟩⟩

/-- The slot of a line is not that of an outcome of a branch. -/
theorem slot_notMem_branchSlots (h : cls.Made options filters scanned record laidOut meanings)
    {number other : UInt32} {line line' : LineRecord} (hline : record.line? number = some line)
    (hline' : record.line? other = some line') : line.slot ∉ line'.branchSlots := by
  intro hmem
  obtain ⟨_, _, _, _, _, index, deed, _, ho⟩ := h.exists_of_mem_branchSlots hline' hmem
  cases (h.meaning_of_standsFor ho).symm.trans (h.meaning_of_standsFor (.line hline))

end ClassFile.Made

/-! ## Histories with tests -/

/-- Something that happens in a session while tests are run. -/
inductive TestMove
  | move (m : Move)
  | startTest
  | endTest (name : String)

/-- A session in which tests start and end. -/
structure Testing where
  scene : Scene
  /-- How much had been done when a test last started or ended. -/
  seen : Nat := 0
  /-- The traces that the ends of tests gave, in order. -/
  given : List TestTrace := []

/-- What classes with a name have done. -/
def eventsOf (name : String) (done : List (Version × Event)) : List Event :=
  (done.filter fun d => d.1.original.name == name).map Prod.snd

theorem eventsOf_append (name : String) (a b : List (Version × Event)) :
    eventsOf name (a ++ b) = eventsOf name a ++ eventsOf name b := by
  rw [eventsOf, List.filter_append, List.map_append]
  rfl

/-- What one version does. -/
theorem eventsOf_map (name : String) (v : Version) (events : List Event) :
    eventsOf name (events.map (Prod.mk v)) = if v.original.name = name then events else [] := by
  by_cases h : v.original.name = name <;> simp [eventsOf, List.filter_map, Function.comp_def, h]

theorem exists_of_mem_eventsOf {name : String} {done : List (Version × Event)} {e : Event}
    (h : e ∈ eventsOf name done) : ∃ d ∈ done, d.1.original.name = name ∧ d.2 = e := by
  obtain ⟨d, hd, rfl⟩ := List.mem_map.1 h
  obtain ⟨hmem, hname⟩ := List.mem_filter.1 hd
  exact ⟨d, hmem, eq_of_beq hname, rfl⟩

namespace Testing

/-- A new session. -/
def start (options : Options) : Testing where
  scene := .start options

/-- What classes with a name have done since a test last started or ended. -/
def recent (t : Testing) (name : String) : List Event :=
  eventsOf name (t.scene.done.drop t.seen)

/-- A test starts or ends, which changes the session and may give a trace. -/
def turn (t : Testing) (session : Session) (given : List TestTrace) : Testing where
  scene := { t.scene with session }
  seen := t.scene.done.length
  given := t.given ++ given

/-- What becomes of a session. -/
def step (filters : List Filter) (t : Testing) : TestMove → Testing
  | .move m => { t with scene := t.scene.move filters m }
  | .startTest => t.turn t.scene.session.startTest []
  | .endTest name =>
      let (trace, session) := t.scene.session.endTest name
      t.turn session [trace]

/-- What becomes of a session in the course of a history. -/
def play (filters : List Filter) (t : Testing) (history : List TestMove) : Testing :=
  history.foldl (step filters) t

/-- A test may start or end at any time. -/
def Permits (t : Testing) : TestMove → Prop
  | .move m => t.scene.Permits m
  | _ => True

/-- All moves of a history are permitted. -/
def Plays (filters : List Filter) (t : Testing) : List TestMove → Prop
  | [] => True
  | m :: rest => t.Permits m ∧ (t.step filters m).Plays filters rest

/-! ## The invariant -/

variable {options : Options} {filters : List Filter} {t : Testing}

/-- What holds after a history in which no class name is rewritten with different code. -/
structure Exact (options : Options) (filters : List Filter) (t : Testing) : Prop where
  sound : t.scene.Sound options filters
  made : ∀ v ∈ t.scene.versions, ∃ scanned record laidOut meanings,
    v.original.Made options filters scanned record laidOut meanings
  doer : ∀ d ∈ t.scene.done,
    d.1 ∈ t.scene.versions ∧ (d.1.original.pairingIn options filters).Marked d.2
  seen : t.seen ≤ t.scene.done.length
  /-- A flag is set if and only if something that was done since the last boundary has set it. -/
  flags : ∀ v ∈ t.scene.versions, ∀ place,
    (t.scene.registry.tally v.original.name).Flagged place ↔
      ∃ e ∈ t.recent v.original.name, (v.original.pairingIn options filters).flagOf? e = some place
  archive : t.scene.registry.tracker.archive = t.given

theorem exact_start (options : Options) (filters : List Filter) :
    (start options).Exact options filters where
  sound := Scene.sound_start options filters
  made _ hv := by cases hv
  doer _ hd := by cases hd
  seen := Nat.le_refl 0
  flags _ hv := by cases hv
  archive := rfl

end Testing

namespace Scene

variable {filters : List Filter} {scene later : Scene} {m : Move}

/-- A move that does not call a method leaves the masks as they are. -/
theorem Effect.quiet_or_called (h : scene.Effect filters m later) :
    (later.done = scene.done ∧ later.registry.tracker = scene.registry.tracker ∧
      ∃ more, later.versions = scene.versions ++ more ∧ ∀ v ∈ more,
        ∃ scanned record laidOut meanings,
          v.original.Made scene.session.options filters scanned record laidOut meanings) ∨
      ∃ place r c, m = .invoke place c ∧ scene.runners[place]? = some r ∧
        later = scene.call place r c := by
  have hnone : ∀ v ∈ ([] : List Version), ∃ scanned record laidOut meanings,
      v.original.Made scene.session.options filters scanned record laidOut meanings :=
    List.forall_mem_nil _
  have hsame : scene.versions = scene.versions ++ [] := (List.append_nil _).symm
  cases h with
  | none => exact .inl ⟨rfl, rfl, [], hsame, hnone⟩
  | rewritten hmade hlines =>
      refine .inl ⟨rfl, ?_, _, rfl, List.forall_mem_singleton.2 ⟨_, _, _, _, hmade⟩⟩
      exact (congrArg Registry.tracker (hmade.registry_register hlines scene.session)).trans rfl
  | skipped hmade hlines =>
      refine .inl ⟨rfl, ?_, [], hsame, hnone⟩
      simp only [registry, Session.register, hmade.slotCount_eq_zero hlines]
      rfl
  | started => exact .inl ⟨rfl, rfl, [], hsame, hnone⟩
  | called place c hr => exact .inr ⟨place, _, c, rfl, hr, rfl⟩
  | reset => exact .inl ⟨rfl, scene.registry.cleared_reset.tracker, [], hsame, hnone⟩
  | resetClass className =>
      exact .inl ⟨rfl, (scene.registry.cleared_resetClass className).tracker, [], hsame, hnone⟩

end Scene

namespace Testing.Exact

variable {options : Options} {filters : List Filter} {t : Testing}
  (h : t.Exact options filters)

include h

/-- Nothing is done by classes that were not rewritten, and they have no mask. -/
theorem not_flagged {name : String} (hnone : ∀ v ∈ t.scene.versions, v.original.name ≠ name) :
    t.scene.registry.tracker.mask? name = none ∧ t.recent name = [] := by
  constructor
  · refine Option.eq_none_iff_forall_ne_some.2 fun mask hmask => ?_
    have hslots := h.sound.regular.traced name mask hmask
    obtain ⟨v, hv, hname⟩ := h.sound.declared name (Option.isSome_iff_exists.2 ⟨_, hslots⟩)
    exact hnone v hv hname
  · refine List.eq_nil_iff_forall_not_mem.2 fun e he => ?_
    obtain ⟨d, hd, hname, -⟩ := exists_of_mem_eventsOf he
    exact hnone _ (h.doer d (List.mem_of_mem_drop hd)).1 hname

/-- A move that does not call a method. -/
theorem quiet {later : Scene} (hsound : later.Sound options filters) (hfaithful : later.Faithful)
    (hdone : later.done = t.scene.done)
    (htracker : later.registry.tracker = t.scene.registry.tracker)
    {more : List Version} (hversions : later.versions = t.scene.versions ++ more)
    (hmore : ∀ v ∈ more, ∃ scanned record laidOut meanings,
      v.original.Made options filters scanned record laidOut meanings) :
    ({ t with scene := later } : Testing).Exact options filters where
  sound := hsound
  made := by
    rw [hversions, List.forall_mem_append]
    exact ⟨h.made, hmore⟩
  doer := by
    rw [hdone, hversions]
    exact fun d hd => ⟨List.mem_append_left _ (h.doer d hd).1, (h.doer d hd).2⟩
  seen := hdone ▸ h.seen
  flags v hv place := by
    have hrecent : ({ t with scene := later } : Testing).recent v.original.name =
        t.recent v.original.name := by
      simp only [recent, hdone]
    have htrace : (later.registry.tally v.original.name).Flagged place ↔
        (t.scene.registry.tally v.original.name).Flagged place := by
      simp only [Tally.Flagged, Registry.tally, htracker]
    rw [hrecent, htrace]
    -- Nothing has been done yet by a version whose name is new.
    by_cases hold : ∃ u ∈ t.scene.versions, u.original.name = v.original.name
    · obtain ⟨u, hu, hname⟩ := hold
      have hsame := hsound.eq_of_name hfaithful (hversions ▸ List.mem_append_left _ hu) hv hname
      exact h.flags v (hsame ▸ hu) place
    · obtain ⟨hmask, hnone⟩ := h.not_flagged fun u hu hname => hold ⟨u, hu, hname⟩
      simp [Tally.Flagged, Registry.tally, hmask, hnone]
  archive := by
    show later.registry.tracker.archive = t.given
    rw [htracker, h.archive]

/-- A method is called. -/
theorem called (htracking : options.tracking = true) (hfaithful : t.scene.Faithful) {place : Nat}
    {r : Runner} {c : Call} (hr : t.scene.runners[place]? = some r)
    (hc : r.version.original.Callable c)
    (hlimit : (r.invoke t.scene.registry c).1 ≠ .error .stepLimit) :
    ({ t with scene := t.scene.call place r c } : Testing).Exact options filters := by
  obtain ⟨hv, hmachines⟩ := h.sound.runner r (List.mem_of_getElem? hr)
  have hdeclared := h.sound.version _ hv
  obtain ⟨-, -, hnoted⟩ := hdeclared.good.invoke_alike hmachines hc hlimit
  have hrecent : ∀ name, ({ t with scene := t.scene.call place r c } : Testing).recent name =
      t.recent name ++ if r.version.original.name = name then r.plain.invokeEvents c else [] := by
    intro name
    rw [recent, recent, Scene.call, List.drop_append_of_le_length h.seen, eventsOf_append,
      eventsOf_map]
  refine ⟨h.sound.called hfaithful hr hc hlimit, h.made, ?_, ?_, ?_, ?_⟩
  · refine List.forall_mem_append.2 ⟨h.doer, fun d hd => ?_⟩
    obtain ⟨e, he, rfl⟩ := List.mem_map.1 hd
    exact ⟨hv, hnoted.marked e he⟩
  · exact Nat.le_trans h.seen (List.length_append ▸ Nat.le_add_right _ _)
  · intro v hv' i
    rw [hrecent]
    by_cases hname : v.original.name = r.version.original.name
    · obtain rfl := h.sound.eq_of_name hfaithful hv' hv hname
      have htraced : (options.probeStyle r.version.original).traced.isSome = true := by
        rw [Options.probeStyle, htracking]
        rfl
      rw [if_pos rfl]
      refine (hdeclared.good.flagged_of_noted htraced h.sound.regular hdeclared.slots
        (opened_invokeEvents r.plain c []) hnoted).trans ?_
      refine (or_congr_left (h.flags _ hv i)).trans ?_
      simp only [List.mem_append, or_and_right, exists_or]
    · rw [if_neg fun heq => hname heq.symm, List.append_nil, ← h.flags v hv' i]
      exact iff_of_eq (congrArg (Tally.Flagged · i) (hnoted.counted.tally_other hname))
  · exact hnoted.counted.archive.trans h.archive

/-- A test starts or ends. -/
theorem turn {archive given : List TestTrace} (harchive : archive = t.given ++ given) :
    (t.turn { t.scene.session with registry := t.scene.registry.atBoundary archive }
      given).Exact options filters where
  sound := h.sound.of_later ⟨h.sound.regular.atBoundary, rfl, fun _ hmade => hmade⟩
    fun _ _ hhits _ _ _ _ => hhits
  made := h.made
  doer := h.doer
  seen := Nat.le_refl _
  flags v hv place := by
    have hrecent : eventsOf v.original.name (t.scene.done.drop t.scene.done.length) = [] := by
      rw [List.drop_length]
      rfl
    have hclear :
        ¬ ((t.scene.registry.atBoundary archive).tally v.original.name).Flagged place := by
      intro hflag
      cases hmask : (t.scene.registry.atBoundary archive).tracker.mask? v.original.name with
      | none => simp [Tally.Flagged, Registry.tally, hmask] at hflag
      | some mask =>
          rw [Tally.Flagged, Registry.tally, hmask, Option.getD_some] at hflag
          cases Registry.eq_false_of_mem_mask hmask true (List.mem_of_getElem? hflag)
    refine iff_of_false hclear ?_
    rintro ⟨e, he, -⟩
    rw [recent, Testing.turn, hrecent] at he
    cases he
  archive := harchive

end Testing.Exact

namespace Testing

variable {options : Options} {filters : List Filter} {t : Testing}

theorem subset_step (filters : List Filter) (t : Testing) (m : TestMove) :
    t.scene.versions ⊆ (t.step filters m).scene.versions := by
  cases m with
  | move m =>
      obtain ⟨_, hgrows⟩ := (t.scene.effect_move filters m).grows
      exact hgrows.subset
  | startTest | endTest => exact List.Subset.refl _

theorem subset_play (filters : List Filter) (t : Testing) (history : List TestMove) :
    t.scene.versions ⊆ (t.play filters history).scene.versions := by
  induction history generalizing t with
  | nil => exact List.Subset.refl _
  | cons m rest ih => exact List.Subset.trans (t.subset_step filters m) (ih (t.step filters m))

/-- Every step keeps the invariant, as long as no class name is rewritten with different code. -/
theorem Exact.step (h : t.Exact options filters) (htracking : options.tracking = true)
    {m : TestMove} (hpermits : t.Permits m) (hfaithful : (t.step filters m).scene.Faithful) :
    (t.step filters m).Exact options filters := by
  cases m with
  | startTest => exact h.turn (h.archive.trans (List.append_nil _).symm)
  | endTest name => exact h.turn (congrArg (· ++ _) h.archive)
  | move m =>
      have heffect := t.scene.effect_move filters m
      have hsound := h.sound.of_effect hpermits heffect hfaithful
      rcases heffect.quiet_or_called with
        ⟨hdone, htracker, more, hversions, hmore⟩ | ⟨place, r, c, rfl, hr, hlater⟩
      · rw [h.sound.configured] at hmore
        exact h.quiet hsound hfaithful hdone htracker hversions hmore
      · obtain ⟨hc, hlimit⟩ := hpermits r hr
        rw [Testing.step, hlater]
        exact h.called htracking (hfaithful.of_subset (t.subset_step filters _)) hr hc hlimit

/-- The invariant holds after a history. -/
theorem Exact.play (h : t.Exact options filters) (htracking : options.tracking = true)
    {history : List TestMove} (hplays : t.Plays filters history)
    (hfaithful : (t.play filters history).scene.Faithful) :
    (t.play filters history).Exact options filters := by
  induction history generalizing t with
  | nil => exact h
  | cons m rest ih =>
      obtain ⟨hpermits, hplays⟩ := hplays
      have hfirst : (t.step filters m).scene.Faithful :=
        hfaithful.of_subset ((t.step filters m).subset_play filters rest)
      exact ih (h.step htracking hpermits hfirst) hplays hfaithful

theorem Exact.marked (h : t.Exact options filters) (hfaithful : t.scene.Faithful) {v : Version}
    (hv : v ∈ t.scene.versions) {e : Event} (he : e ∈ t.recent v.original.name) :
    (v.original.pairingIn options filters).Marked e := by
  obtain ⟨d, hd, hname, rfl⟩ := exists_of_mem_eventsOf he
  obtain ⟨hdoer, hmarked⟩ := h.doer d (List.mem_of_mem_drop hd)
  rwa [h.sound.eq_of_name hfaithful hdoer hv hname] at hmarked

/-- What is read out of the mask of a version are the slots of the lines that were passed. -/
theorem Exact.setFrom_mask (h : t.Exact options filters) (hfaithful : t.scene.Faithful)
    {v : Version} (hv : v ∈ t.scene.versions) {scanned : List ScannedMethod} {record : ClassRecord}
    {laidOut : List (ScannedMethod × MethodSlots)} {meanings : List Occurrence}
    (hmade : v.original.Made options filters scanned record laidOut meanings)
    (hcount : record.slotCount ≤ 0x80000000) :
    Tracker.setFrom 0 (t.scene.registry.tracker.mask v.original.name) =
      record.passedSlots scanned (t.recent v.original.name) := by
  refine (Tracker.pairwise_setFrom 0 _).eq_of_mem_iff (record.pairwise_passedSlots scanned _)
    fun slot => ?_
  have hpairing := hmade.pairingIn_eq
  have hflag : ∀ e ∈ t.recent v.original.name,
      ((v.original.pairingIn options filters).flagOf? e = some slot ↔
        ∃ number line, record.line? number = some line ∧ line.slot = slot ∧
          (Occurrence.passes number).holds scanned e = true) := by
    intro e he
    have hmarked := h.marked hfaithful hv he
    rw [hpairing] at hmarked ⊢
    exact hmade.flagOf?_eq_some_iff hcount hmarked
  rw [Tracker.mem_setFrom_zero, ClassRecord.mem_passedSlots]
  refine (h.flags v hv slot).trans ?_
  constructor
  · rintro ⟨e, he, hset⟩
    obtain ⟨number, line, hline, rfl, hholds⟩ := (hflag e he).1 hset
    exact ⟨hmade.lt_of_standsFor (.line hline), number, line, hline, rfl, e, he, hholds⟩
  · rintro ⟨-, number, line, hline, rfl, e, he, hholds⟩
    exact ⟨e, he, (hflag e he).2 ⟨number, line, hline, rfl, hholds⟩⟩

end Testing

/-- In a session that traces tests, admissible classes are instrumented, methods are called, and
tests start and end, in any order.  When a test ends, its trace lists for each class that was
rewritten the slots of the lines whose kept markers the class itself has passed since a test last
started or ended, or since the beginning, in ascending order.  It leaves out classes without such
lines, and classes that were not rewritten.  None of the slots is that of an outcome of a branch.
Afterwards all masks are clear, and the traces that tests have given are listed in their order.  No
class name is rewritten with different code, so a record with lines in the session is the one whose
slots are listed.  The classes leave room for the labels of windows (`Body.Roomy`), and a trace is
listed for classes with at most `0x80000000` slots, the numbers that probes can push. -/
theorem Session.trace_of_test {options : Options} (htracking : options.tracking = true)
    {filters : List Filter} {history : List TestMove} {t : Testing}
    (ht : (Testing.start options).play filters history = t)
    (hplays : (Testing.start options).Plays filters history) (hfaithful : t.scene.Faithful)
    {name : String} {trace : TestTrace} {s : Session}
    (hend : t.scene.session.endTest name = (trace, s)) :
    trace.name = name ∧
    (∀ v ∈ t.scene.versions, ∃ scanned record laidOut,
      v.original.scanAll options filters = .ok scanned ∧
      ClassFile.layOut options.instructions scanned v.original.blankRecord = (record, laidOut) ∧
      (∀ known, s.record? v.original.name = some known → known.lines.isEmpty = false →
        known = record) ∧
      (record.slotCount ≤ 0x80000000 →
        trace.Lists v.original.name
            (record.passedSlots scanned (t.recent v.original.name)) ∧
          ∀ slot ∈ record.passedSlots scanned (t.recent v.original.name),
            ∀ number line, record.line? number = some line → slot ∉ line.branchSlots)) ∧
    (∀ className, (∀ v ∈ t.scene.versions, v.original.name ≠ className) →
      trace.Lists className []) ∧
    (∀ className mask, s.registry.tracker.mask? className = some mask →
      ∀ flag ∈ mask, flag = false) ∧
    s.registry.tracker.archive = t.given ++ [trace] := by
  subst ht
  obtain ⟨rfl, rfl⟩ := Prod.mk.inj hend
  have hexact := (Testing.exact_start options filters).play htracking hplays hfaithful
  generalize (Testing.start options).play filters history = t at hfaithful hexact ⊢
  have hlists : ∀ className, (t.scene.session.endTest name).1.Lists className
      (Tracker.setFrom 0 (t.scene.registry.tracker.mask className)) :=
    Tracker.lists_endTest _ name
  refine ⟨rfl, fun v hv => ?_, fun className hnone => ?_, fun className mask hmask => ?_, ?_⟩
  · obtain ⟨scanned, record, laidOut, meanings, hmade⟩ := hexact.made v hv
    refine ⟨scanned, record, laidOut, hmade.scan, hmade.layOut, fun known hknown hlines => ?_,
      fun hcount => ⟨?_, fun slot hslot number line hline => ?_⟩⟩
    · exact hexact.sound.record_eq hfaithful hv hmade hknown hlines
    · rw [← hexact.setFrom_mask hfaithful hv hmade hcount]
      exact hlists v.original.name
    · obtain ⟨-, other, line', hline', rfl, -⟩ := ClassRecord.mem_passedSlots.1 hslot
      exact hmade.slot_notMem_branchSlots hline' hline
  · have hempty := hlists className
    rwa [Tracker.mask, (hexact.not_flagged hnone).1] at hempty
  · exact Registry.eq_false_of_mem_mask hmask
  · exact congrArg (· ++ _) hexact.archive

/-! ## A test of one call -/

namespace Sign

/-- Options with which tests are traced. -/
def tracked : Options :=
  { tracking := true }

/-- The class with probes that set flags too. -/
def trackedProbed : ClassFile :=
  cls.withProbes (tracked.probeStyle cls) [(scanned, laid.2)]

theorem instrument_tracked : ({ options := tracked } : Session).instrument [] cls =
    (.probed trackedProbed, ({ options := tracked } : Session).register laid.1) :=
  Session.instrument_of_kept (by decide) rfl rfl kept_scanned rfl

/-- A machine is started, a test starts, and the method is called. -/
def tests : List TestMove :=
  [.move (.instrument cls), .move (.start 0 1), .startTest, .move (.invoke 0 call)]

/-- The session once the class has been rewritten. -/
def trackedScene : Scene :=
  { Scene.start tracked with
    session := ({ options := tracked } : Session).register laid.1
    versions := [⟨cls, trackedProbed⟩] }

theorem step_tracked : (Testing.start tracked).step [] (.move (.instrument cls)) =
    { scene := trackedScene } :=
  congrArg (Testing.mk · 0 []) (Scene.instrument_eq instrument_tracked)

/-- The session in which the test is under way. -/
def underWay : Testing :=
  ({ scene := trackedScene } : Testing).play []
    [.move (.start 0 1), .startTest, .move (.invoke 0 call)]

theorem play_tests : (Testing.start tracked).play [] tests = underWay := by
  rw [tests, Testing.play, List.foldl_cons, step_tracked]
  rfl

theorem plays_tests : (Testing.start tracked).Plays [] tests := by
  refine ⟨admissible, ?_⟩
  rw [step_tracked]
  refine ⟨trivial, trivial, ?_, trivial⟩
  rintro r ⟨⟩
  refine ⟨callable 5, ?_⟩
  have hresult : ((Runner.start ⟨cls, trackedProbed⟩ trackedScene.registry 1).invoke
      (trackedScene.registry.atBoundary []) call).1 = .ok (some 0) := by
    with_unfolding_all rfl
  exact fun h => by cases hresult.symm.trans h

theorem faithful_underWay : underWay.scene.Faithful := by
  have hall : ∀ v ∈ underWay.scene.versions, v.original = cls := by
    rintro v (⟨⟩ | ⟨_, ⟨⟩⟩)
    rfl
  exact fun v hv w hw _ => (hall v hv).trans (hall w hw).symm

theorem passed_underWay :
    laid.1.passedSlots [scanned] (underWay.recent "demo/Sign") = [0] := by
  with_unfolding_all rfl

end Sign

/-- The test has passed the line of the method. -/
theorem Session.trace_of_test_sign :
    ∃ trace s, Sign.underWay.scene.session.endTest "negative" = (trace, s) ∧
      trace.name = "negative" ∧ trace.Lists "demo/Sign" [0] ∧
      s.registry.tracker.archive = [trace] := by
  refine ⟨_, _, rfl, ?_⟩
  obtain ⟨hname, hversions, -, -, harchive⟩ :=
    trace_of_test rfl Sign.play_tests Sign.plays_tests Sign.faithful_underWay
      (rfl : Sign.underWay.scene.session.endTest "negative" = _)
  obtain ⟨scanned, record, laidOut, hscan, -, hknown, hlisted⟩ :=
    hversions ⟨Sign.cls, Sign.trackedProbed⟩ List.mem_cons_self
  obtain rfl : Sign.laid.1 = record := hknown _ rfl rfl
  obtain rfl : [Sign.scanned] = scanned := Except.ok.inj hscan
  have hlists : TestTrace.Lists _ "demo/Sign"
      (Sign.laid.1.passedSlots [Sign.scanned] (Sign.underWay.recent "demo/Sign")) :=
    (hlisted (by decide)).1
  rw [Sign.passed_underWay] at hlists
  exact ⟨hname, hlists, harchive⟩

end BytecodeCoverage
