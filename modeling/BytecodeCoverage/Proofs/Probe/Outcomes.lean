import BytecodeCoverage.Proofs.Probe.Worlds

/-!
# Outcomes of an instruction and of its counterpart

Threads are poised at an instruction and at what the plan has made of it.  Both have the same
outcome, except that a branch may lead to a window first.  After each outcome the thread with
probes has counted what the step demands and corresponds to the other one again.

**Main definitions.**
* `Pairing.Aside`: a moment while added code runs.
* `Pairing.Continues`, `Pairing.Ends`: what the thread with probes does in the meantime.
* `Pairing.Poised`: threads that are about to execute an instruction.

**Results.**
* `Pairing.Good.exists_poised`: corresponding threads get to their instructions.
* `Pairing.Good.continues_next`, `Pairing.Good.continues_jump`, `Pairing.Good.step_call`: one lemma
  for each outcome.
-/

namespace BytecodeCoverage

open Machine

namespace Pairing

/-- A moment while something that was added to the class runs, the innermost call being that of a
thread of the other class. -/
def Aside (p : Pairing) (places : List Nat) (t : Thread) (x : Moment) : Prop :=
  ∃ place rest s callers, places = place :: rest ∧ p.sheets place = some s ∧
    p.Stacked rest t.callers callers ∧ p.Added s t.frame.stack.length places callers x

/-- A thread with probes gets to one that corresponds, having counted the events; behind its first
instruction only added code runs. -/
def Continues (p : Pairing) (before places : List Nat) (t : Thread) (events : List Event)
    (t' : Thread) : Prop :=
  ∃ xs t₁', Path (⟨before, t'⟩ :: xs) ⟨before, t'⟩ ⟨places, t₁'⟩ ∧ p.Threads places t t₁' ∧
    p.Noted t'.world.registry events t₁'.world.registry ∧ ∀ x ∈ xs, p.Aside places t x

/-- A thread with probes ends with the same result, having counted nothing. -/
def Ends (p : Pairing) (result : Except MachineFault (Option Value)) (w : World)
    (t' : Thread) : Prop :=
  ∃ insn' w', t'.frame.current? = some insn' ∧ t'.step insn' = .ended result w' ∧
    p.Worlds w w' ∧ p.Ready w' ∧ p.Noted t'.world.registry [] w'.registry

/-- Threads that are about to execute an instruction and the diverted instruction. -/
structure Poised (p : Pairing) (place : Nat) (places : List Nat) (s : Sheet) (insn : Instruction)
    (drawn : UInt32) (t t' : Thread) : Prop where
  sheet : p.sheets place = some s
  here : s.weave.body.code[t.frame.pos]? = some insn
  main : t'.frame.pos = s.weave.main t.frame.pos
  current : t'.frame.current? = some (s.weave.plan.divert t.frame.pos drawn insn).1.insn
  windows : ∀ w ∈ (s.weave.plan.divert t.frame.pos drawn insn).2, w ∈ s.weave.windows
  chunk : ∃ c, s.weave.chunks[t.frame.pos]? = some c ∧
    c.diverted = (s.weave.plan.divert t.frame.pos drawn insn).1 ∧
    (c.reached = true ∨ ∃ placed, insn = .label placed)
  twins : (⟨s.weave.body, t.frame.pos, s.body', t'.frame.pos, s.weave.body.maxLocals.toNat,
    s.extras⟩ : Twins).Frames t.frame t'.frame
  callers : p.Stacked places t.callers t'.callers
  worlds : p.Worlds t.world t'.world
  ready : p.Ready t'.world
  armed : p.Probing (place :: places) → p.style.Armed t'.world.registry

namespace Good

variable {p : Pairing} (hp : p.Good) {place : Nat} {places : List Nat} {s : Sheet}
  {insn : Instruction} {drawn : UInt32} {t t' : Thread}

include hp

/-- Corresponding threads get to the instruction that is next. -/
theorem exists_poised (h : p.Threads places t t') (hinsn : t.frame.current? = some insn) :
    ∃ xs t₁' place rest s drawn, places = place :: rest ∧
      Path xs ⟨places, t'⟩ ⟨places, t₁'⟩ ∧ p.Poised place rest s insn drawn t t₁' ∧
      t₁'.world = t'.world ∧ ∀ x ∈ xs, p.Aside places t x := by
  obtain ⟨hstack, hworlds, hready, harmed⟩ := h
  cases hstack with
  | @cons place rest s _ _ _ _ hsheet hlinked hcallers =>
      have hs := hp.sheet place s hsheet
      obtain ⟨hat, htwins⟩ := hlinked
      have hcode : s.weave.body.code[t.frame.pos]? = some insn := by
        rw [Frame.current?, htwins.body] at hinsn
        exact hinsn
      obtain ⟨c, drawn, hc, hd, hwindows⟩ := Weave.exists_chunk hcode
      have hbody' : t'.frame.body = s.body' := htwins.body'
      obtain ⟨xs, hmain, hxs⟩ := Weave.path_main (σ := Store.of t'.frame t'.world) hs.valid hs.code
        hcode hat (place :: rest) t'.callers
      have hstart : t' = (Store.of t'.frame t'.world).thread s.body' t'.frame.pos t'.callers := by
        rw [← hbody']
        rfl
      refine ⟨xs, { t' with frame := { t'.frame with pos := s.weave.main t.frame.pos } }, place,
        rest, s, drawn, rfl, ?_, ⟨hsheet, hcode, rfl, ?_, hwindows,
          ⟨c, hc, hd, hat.reached_or_label hc hcode⟩, ?_, hcallers, hworlds, hready, harmed⟩, rfl,
        fun x hx => ⟨place, rest, s, t'.callers, rfl, hsheet, hcallers,
          .inl ((hxs x hx).mono ?_ fun _ hbeside => hbeside)⟩⟩
      · rw [hstart]
        rw [← hbody']
        rw [← hbody'] at hmain
        exact hmain
      · rw [Frame.current?, hbody', hs.code, ← List.head?_drop, Weave.drop_main hc, hd]
        rfl
      · exact htwins.moved t.frame.pos (s.weave.main t.frame.pos)
      · exact Nat.le_trans (Nat.le_of_eq (congrArg List.length htwins.stack)) (s.le_height _)

omit hp in
/-- Control arrives at the next instruction by falling through. -/
theorem at_next (h : p.Poised place places s insn drawn t t') {o : Outcome}
    (ho : (∃ g, o = .next g) ∨ ∃ g name descriptor args, o = .call g name descriptor args)
    (hfits : o.Fits insn) :
    s.weave.At (t.frame.pos + 1) (s.weave.start (t.frame.pos + 1)) := by
  obtain ⟨c, hc, hd, hreached⟩ := h.chunk
  have hpasses : c.diverted.passes c.reached = true := by
    rw [hd]
    rcases hreached with hreached | ⟨placed, rfl⟩
    · rw [hreached]
      exact s.weave.plan.passes_divert ho hfits
    · exact s.weave.plan.passes_divert_label _ _ _ _
  exact .fell fun next hnext => (Diverted.reached_succ hc hnext).trans hpasses

/-- Falling through to the next instruction, past the probe if there is one. -/
theorem path_next (h : p.Poised place places s insn drawn t t') {o : Outcome}
    (ho : (∃ g, o = .next g) ∨ ∃ g name descriptor args, o = .call g name descriptor args)
    (hfits : o.Fits insn) {g g' : Frame} {u u' : World}
    (hframes : (⟨s.weave.body, t.frame.pos, s.body', t'.frame.pos,
      s.weave.body.maxLocals.toNat, s.extras⟩ : Twins).Frames g g')
    (hworlds : p.Worlds u u') (harmed : s.probed = true → p.style.Armed u'.registry)
    (callers : List Frame) :
    ∃ xs f' r, Path xs ⟨place :: places, { frame := g'.next, callers, world := u' }⟩
        ⟨place :: places, { frame := f', callers, world := { u' with registry := r } }⟩ ∧
      s.Linked g.next f' ∧ Registry.Counted p.cls.name u'.registry r ∧
      r.tally p.cls.name = s.weave.tallied
        ((insn.deed? t.frame o).bind (s.weave.plan.site? t.frame.pos))
        (u'.registry.tally p.cls.name) ∧
      ∀ x ∈ xs, p.Added s g.stack.length (place :: places) callers x := by
  have hs := hp.sheet place s h.sheet
  have hstyle := hp.style place s h.sheet
  obtain ⟨c, hc, hd, -⟩ := h.chunk
  have hprobe : (s.weave.plan.divert t.frame.pos drawn insn).1.probe = _ :=
    s.weave.plan.probe_divert t.frame ho hfits
  rw [← hd] at hprobe
  obtain ⟨r, hsite, hcounted, htally⟩ := Sheet.passes_site (σ := Store.of g'.next u') hs
    t.frame.pos (insn.deed? t.frame o) (hstyle ▸ hp.traced) hworlds.regular
    (by rw [hstyle, hp.own]; exact hworlds.slots) (hstyle ▸ harmed) hframes.locals hframes.count
  have hpeak := Sheet.peak_site hs t.frame.pos (insn.deed? t.frame o)
  rw [← hprobe] at hsite hpeak
  have hcode : s.body'.code.drop (s.weave.main t.frame.pos + 1) =
      s.weave.emit (c.diverted.probe.map Item.probe).toList ++
        s.weave.code.drop (s.weave.start (t.frame.pos + 1)) := by
    rw [hs.code, ← List.tail_drop, Weave.drop_main hc]
    rfl
  obtain ⟨xs, hrun, hxs⟩ := hsite.path s.body' _ (place :: places) callers hcode
  rw [← Weave.start_succ_eq_main hc] at hrun hxs
  have hnext : (Store.of g'.next u').thread s.body' (s.weave.main t.frame.pos + 1) callers =
      { frame := g'.next, callers, world := u' } := by
    have hbody' : g'.body = s.body' := hframes.body'
    have hpos' : g'.pos = t'.frame.pos := hframes.pos'
    rw [← h.main, ← hpos', ← hbody']
    rfl
  rw [hnext] at hrun
  rw [hstyle, hp.own] at hcounted htally
  refine ⟨_, _, r, hrun, ⟨?_, ?_⟩, hcounted, htally, fun x hx => .inl
    ((hxs x hx).mono ?_ fun pos hpos => Weave.beside_behind ?_ hpos.1 hpos.2)⟩
  · have hpos : g.next.pos = t.frame.pos + 1 := congrArg (· + 1) hframes.pos
    rw [hpos]
    exact at_next h ho hfits
  · exact ⟨hframes.body, rfl, rfl, rfl, hframes.stack, hframes.locals, hframes.count,
      hframes.plainStack, hframes.plainLocals⟩
  · have hheight : (Store.of g'.next u').stack.length = g.stack.length :=
      congrArg List.length hframes.stack
    rw [hheight]
    exact Nat.le_trans (Nat.add_le_add_left hpeak _) (Nat.le_max_left _ _)
  · exact (List.getElem?_eq_some_iff.1 h.here).1

omit hp in
/-- What an instruction did does not depend on the side. -/
theorem deed?_alike {k : Twins} {f f' : Frame} {o o' : Outcome} (hframes : k.Frames f f')
    (ho : k.Outcomes o o') : insn.deed? f o = insn.deed? f' o' := by
  have htop : f'.topInt? = f.topInt? := by simp only [Frame.topInt?, hframes.stack]
  cases ho <;> cases insn <;> simp only [Instruction.deed?, htop]

/-- Both sides execute alike, the side with probes being led to its windows. -/
theorem executed_alike (h : p.Poised place places s insn drawn t t') :
    (∃ e, insn.execute t.frame t.world = .error e ∧
      (s.weave.plan.divert t.frame.pos drawn insn).1.insn.execute t'.frame t'.world = .error e) ∨
    ∃ o u o' o'' u', insn.execute t.frame t.world = .ok (o, u) ∧
      (s.weave.plan.divert t.frame.pos drawn insn).1.insn.execute t'.frame t'.world =
        .ok (o'', u') ∧
      (⟨s.weave.body, t.frame.pos, s.body', t'.frame.pos, s.weave.body.maxLocals.toNat,
        s.extras⟩ : Twins).Outcomes o o' ∧
      Machine.Worlds p.key t.world t'.world u u' ∧
      Led s.weave.windows ((insn.deed? t.frame o).bind (s.weave.plan.site? t.frame.pos)) o' o'' := by
  have hs := hp.sheet place s h.sheet
  have hmem := List.mem_of_getElem? h.here
  have halike := execute_alike (hs.unaware insn hmem) (hs.localIndex insn hmem)
    (by rw [h.worlds.cls, h.worlds.cls', hp.name']) h.twins h.worlds.unexecuted
  have hdivert := s.weave.plan.execute_divert t.frame.pos drawn insn t'.frame t'.world
  cases hexecute' : insn.execute t'.frame t'.world with
  | error e =>
      rw [hexecute'] at halike hdivert
      cases hexecute : insn.execute t.frame t.world <;> rw [hexecute] at halike <;> cases halike
      generalize hd : (s.weave.plan.divert t.frame.pos drawn insn).1.insn.execute t'.frame
        t'.world = x at hdivert
      cases hdivert
      exact .inl ⟨e, rfl, rfl⟩
  | ok r' =>
      rw [hexecute'] at halike hdivert
      cases hexecute : insn.execute t.frame t.world with
      | error e =>
          rw [hexecute] at halike
          cases halike
      | ok r =>
          rw [hexecute] at halike
          cases halike with
          | ok hr =>
              generalize hd : (s.weave.plan.divert t.frame.pos drawn insn).1.insn.execute t'.frame
                t'.world = x at hdivert
              cases hdivert with
              | @ok _ r'' hled =>
                  obtain ⟨hworld, hled⟩ := hled
                  refine .inr ⟨r.1, r.2, r'.1, r''.1, r''.2, rfl, rfl, hr.1, hworld ▸ hr.2, ?_⟩
                  rw [deed?_alike h.twins hr.1]
                  exact hled.mono h.windows

/-- The worlds after both sides have executed. -/
theorem executed_worlds (h : p.Poised place places s insn drawn t t') {u u' : World}
    (hw : Machine.Worlds p.key t.world t'.world u u') :
    p.Worlds u u' ∧ p.Ready u' ∧ (p.Probing (place :: places) → p.style.Armed u'.registry) ∧
      u'.registry = t'.world.registry := by
  obtain ⟨hworlds, hregistry, hfield⟩ := h.worlds.executed hw
  refine ⟨hworlds, fun hstrategy => ⟨?_, ?_⟩, hregistry ▸ h.armed, hregistry⟩
  · rw [key, ← hp.own] at hfield
    exact hfield.trans (h.ready hstrategy).field
  · rw [hregistry]
    exact (h.ready hstrategy).made

omit hp in
theorem deed?_ne_entered (f : Frame) (o : Outcome) : insn.deed? f o ≠ some .entered := by
  have hselected : ∀ choice, selected choice ≠ .entered := by
    intro choice
    cases choice <;> simp [selected]
  cases insn <;> cases o <;> simp [Instruction.deed?, hselected]

omit hp in
/-- Only a line marker is passed. -/
theorem eq_line_of_deed? {f : Frame} {o : Outcome} {number : UInt32}
    (h : insn.deed? f o = some (.passed number)) : insn = .line number := by
  have hselected : ∀ choice, selected choice ≠ .passed number := by
    intro choice
    cases choice <;> simp [selected]
  cases insn <;> cases o <;> simp_all [Instruction.deed?]

omit hp in
/-- What an instruction did is noted where the probe of its site has counted it. -/
theorem noted_deed (hsheet : p.sheets place = some s) {i : Nat}
    (hhere : s.weave.body.code[i]? = some insn) {f : Frame} {o : Outcome} {r r' : Registry}
    (hcounted : Registry.Counted p.cls.name r r')
    (htally : r'.tally p.cls.name =
      s.weave.tallied ((insn.deed? f o).bind (s.weave.plan.site? i)) (r.tally p.cls.name)) :
    p.Noted r ((insn.deed? f o).map fun deed => (⟨place, i, deed⟩ : Event)).toList r' := by
  have hne : insn.deed? f o ≠ some .entered := deed?_ne_entered f o
  refine ⟨hcounted, htally.trans ?_, ?_⟩
  · cases hdeed : insn.deed? f o with
    | none => rfl
    | some deed =>
        rw [hdeed] at hne
        cases deed <;> first | exact absurd rfl hne | simp [noteAll, note, hsheet]
  · intro e he number hnumber
    obtain ⟨deed, hdeed, rfl⟩ := Option.map_eq_some_iff.1 (Option.mem_toList.1 he)
    obtain rfl : deed = .passed number := hnumber
    exact ⟨s, hsheet, eq_line_of_deed? hdeed ▸ hhere⟩

/-- Both sides fall through. -/
theorem continues_next (h : p.Poised place places s insn drawn t t') {g g' : Frame}
    {u u' : World} (hexecute : insn.execute t.frame t.world = .ok (.next g, u))
    (hexecute' : (s.weave.plan.divert t.frame.pos drawn insn).1.insn.execute t'.frame t'.world =
      .ok (.next g', u'))
    (hframes : (⟨s.weave.body, t.frame.pos, s.body', t'.frame.pos,
      s.weave.body.maxLocals.toNat, s.extras⟩ : Twins).Frames g g')
    (hw : Machine.Worlds p.key t.world t'.world u u') :
    p.Continues (place :: places) (t.observe insn (place :: places)).2
      { t with frame := g.next, world := u } (t.observe insn (place :: places)).1 t' := by
  obtain ⟨hworlds, hready, harmed, hregistry⟩ := hp.executed_worlds h hw
  obtain ⟨xs, f', r, hrun, hlinked, hcounted, htally, hxs⟩ := hp.path_next h (.inl ⟨g, rfl⟩)
    (Instruction.execute_fits hexecute) hframes hworlds
    (fun hprobed => harmed ⟨place, List.mem_cons_self, s, h.sheet, hprobed⟩) t'.callers
  have hfirst : Moment.Leads ⟨place :: places, t'⟩
      (s.weave.plan.divert t.frame.pos drawn insn).1.insn
      ⟨place :: places, { t' with frame := g'.next, world := u' }⟩ := by
    refine ⟨h.current, ?_, Thread.places_observe_next hexecute' _⟩
    simp only [Thread.step, hexecute', Thread.resume]
  have hcounted' : Registry.Counted p.style.counters.className u'.registry r := hp.own ▸ hcounted
  have hobserve : t.observe insn (place :: places) =
      (((insn.deed? t.frame (.next g)).map fun deed =>
        (⟨place, t.frame.pos, deed⟩ : Event)).toList, place :: places) := by
    simp only [Thread.observe, hexecute, List.head?_cons, Option.bind_some]
  rw [hobserve]
  exact ⟨xs, _, .cons hfirst hrun, ⟨.cons h.sheet hlinked h.callers, hworlds.counted hcounted,
    hready.counted hcounted', fun hprobing => (harmed hprobing).counted hcounted'⟩,
    noted_deed h.sheet h.here (hregistry ▸ hcounted) (hregistry ▸ htally),
    fun x hx => ⟨place, places, s, t'.callers, rfl, h.sheet, h.callers, hxs x hx⟩⟩

/-- Both sides jump, the side with probes by way of the window of the outcome if there is one. -/
theorem continues_jump (h : p.Poised place places s insn drawn t t') {g g' : Frame}
    {u u' : World} {target : Label} {o'' : Outcome} {j : Nat}
    (hexecute : insn.execute t.frame t.world = .ok (.jump g target, u))
    (hexecute' : (s.weave.plan.divert t.frame.pos drawn insn).1.insn.execute t'.frame t'.world =
      .ok (o'', u'))
    (hframes : (⟨s.weave.body, t.frame.pos, s.body', t'.frame.pos,
      s.weave.body.maxLocals.toNat, s.extras⟩ : Twins).Frames g g')
    (hw : Machine.Worlds p.key t.world t'.world u u')
    (hled : Led s.weave.windows
      ((insn.deed? t.frame (.jump g target)).bind (s.weave.plan.site? t.frame.pos))
      (.jump g' target) o'')
    (hj : s.weave.body.position? target = some j) :
    p.Continues (place :: places) (t.observe insn (place :: places)).2
      { t with frame := { g with pos := j }, world := u }
      (t.observe insn (place :: places)).1 t' := by
  have hs := hp.sheet place s h.sheet
  have hstyle := hp.style place s h.sheet
  obtain ⟨hworlds, hready, harmed, hregistry⟩ := hp.executed_worlds h hw
  have hbody' : g'.body = s.body' := hframes.body'
  have hlinked : s.Linked { g with pos := j } { g' with pos := s.weave.main j } :=
    Sheet.linked_of_twins rfl rfl rfl rfl hframes (.jumped (Body.getElem?_position hj))
  obtain ⟨r, hsite, hcounted, htally⟩ := Sheet.passes_site (σ := Store.of g' u') hs
    t.frame.pos (insn.deed? t.frame (.jump g target)) (hstyle ▸ hp.traced) hworlds.regular
    (by rw [hstyle, hp.own]; exact hworlds.slots)
    (fun hprobed => hstyle ▸ harmed ⟨place, List.mem_cons_self, s, h.sheet, hprobed⟩)
    hframes.locals hframes.count
  rw [hstyle, hp.own] at hcounted htally
  have hobserve : t.observe insn (place :: places) =
      (((insn.deed? t.frame (.jump g target)).map fun deed =>
        (⟨place, t.frame.pos, deed⟩ : Event)).toList, place :: places) := by
    simp only [Thread.observe, hexecute, List.head?_cons, Option.bind_some]
  have hcounted' : Registry.Counted p.style.counters.className u'.registry r := hp.own ▸ hcounted
  have hpeak := Sheet.peak_site hs t.frame.pos (insn.deed? t.frame (.jump g target))
  -- Whatever way is taken, it is enough to get to the destination with the registry `r`.
  suffices hrun : ∃ xs, Path (⟨place :: places, t'⟩ :: xs) ⟨place :: places, t'⟩
        ⟨place :: places, { t' with
          frame := { g' with pos := s.weave.main j }
          world := { u' with registry := r } }⟩ ∧
      ∀ x ∈ xs, p.Added s g.stack.length (place :: places) t'.callers x by
    obtain ⟨xs, hrun, hxs⟩ := hrun
    rw [hobserve]
    exact ⟨xs, _, hrun, ⟨.cons h.sheet hlinked h.callers, hworlds.counted hcounted,
      hready.counted hcounted', fun hprobing => (harmed hprobing).counted hcounted'⟩,
      noted_deed h.sheet h.here (hregistry ▸ hcounted) (hregistry ▸ htally),
      fun x hx => ⟨place, places, s, t'.callers, rfl, h.sheet, h.callers, hxs x hx⟩⟩
  have hstep : ∀ label pos, o'' = .jump g' label → s.body'.position? label = some pos →
      Moment.Leads ⟨place :: places, t'⟩ (s.weave.plan.divert t.frame.pos drawn insn).1.insn
        ⟨place :: places, { t' with frame := { g' with pos }, world := u' }⟩ := by
    rintro label pos rfl hpos
    refine ⟨h.current, ?_, Thread.places_observe_jump hexecute' _⟩
    simp only [Thread.step, hexecute', Thread.resume, hbody', hpos]
  generalize hdeed : (insn.deed? t.frame (.jump g target)).bind (s.weave.plan.site? t.frame.pos) =
    site at hled hsite hpeak
  cases hled with
  | same ho => exact absurd rfl (ho g' target)
  | straight hnone =>
      subst hnone
      have hr : u' = { u' with registry := r } := congrArg Store.world (PassesAll.eq_of_nil hsite)
      exact ⟨[], .single (hr ▸ hstep target _ rfl (Weave.position?_main hs.valid hs.code hj)),
        List.forall_mem_nil _⟩
  | @window _ w hwindow hsome =>
      subst hsome
      obtain ⟨j', pos, xs, hj', hpos, hrun, hxs⟩ := Weave.path_window hs.valid hs.code hwindow
        hsite rfl (place :: places) t'.callers
      obtain rfl : j' = j := by simpa [hj'] using hj
      refine ⟨xs, .cons (hstep _ pos rfl hpos) ?_, fun x hx => .inl ((hxs x hx).mono ?_
        fun pos hbeside => hbeside)⟩
      · rw [← hbody'] at hrun
        exact hrun
      · have hheight : (Store.of g' u').stack.length = g.stack.length :=
          congrArg List.length hframes.stack
        rw [hheight]
        exact Nat.le_trans (Nat.add_le_add_left hpeak _) (Nat.le_max_left _ _)

/-- A label that is not placed is missed on both sides. -/
theorem ends_jump (h : p.Poised place places s insn drawn t t') {g g' : Frame}
    {u u' : World} {target : Label} {o'' : Outcome}
    (hexecute : insn.execute t.frame t.world = .ok (.jump g target, u))
    (hexecute' : (s.weave.plan.divert t.frame.pos drawn insn).1.insn.execute t'.frame t'.world =
      .ok (o'', u'))
    (hframes : (⟨s.weave.body, t.frame.pos, s.body', t'.frame.pos,
      s.weave.body.maxLocals.toNat, s.extras⟩ : Twins).Frames g g')
    (hw : Machine.Worlds p.key t.world t'.world u u') {site : Option ProbeSite}
    (hled : Led s.weave.windows site (.jump g' target) o'')
    (hnone : s.weave.body.position? target = none) :
    p.Ends (.error (.unknownLabel target)) u t' := by
  have hs := hp.sheet place s h.sheet
  obtain ⟨hworlds, hready, -, hregistry⟩ := hp.executed_worlds h hw
  have hbody' : g'.body = s.body' := hframes.body'
  cases hled with
  | same ho => exact absurd rfl (ho g' target)
  | @window _ w hwindow hsome =>
      obtain ⟨j, pos, rest, hj, -⟩ := Weave.exists_window hs.valid hs.code hwindow
      rw [hnone] at hj
      cases hj
  | straight hsite =>
      have htarget : target ∈ insn.targets := Instruction.execute_fits hexecute
      have hlabel : target ∈ insn.labels := by
        cases insn <;> first | exact htarget | simp [Instruction.targets] at htarget
      have hold := hs.valid.drawn.below insn (List.mem_of_getElem? h.here) target hlabel
      have hnone' : s.body'.position? target = none := by
        rw [Weave.position?_of_old hs.valid hs.code hold, hnone]
        rfl
      refine ⟨_, u', h.current, ?_, hworlds, hready, .of_eq h.worlds.regular hregistry⟩
      simp only [Thread.step, hexecute', Thread.resume, hbody', hnone']

/-- Both sides return to the caller. -/
theorem continues_leave (h : p.Poised place places s insn drawn t t')
    {result : Option Value} (hplain : ∀ v ∈ result, v.Plain) {u u' : World}
    (hexecute : insn.execute t.frame t.world = .ok (.leave result, u))
    (hexecute' : (s.weave.plan.divert t.frame.pos drawn insn).1.insn.execute t'.frame t'.world =
      .ok (.leave result, u'))
    (hw : Machine.Worlds p.key t.world t'.world u u') {f : Frame} {fs : List Frame}
    (hcallers : t.callers = f :: fs) :
    p.Continues (place :: places) (t.observe insn (place :: places)).2
      { frame := f.pushAny result, callers := fs, world := u }
      (t.observe insn (place :: places)).1 t' := by
  obtain ⟨hworlds, hready, harmed, hregistry⟩ := hp.executed_worlds h hw
  have hstack := h.callers
  rw [hcallers] at hstack
  generalize hcallers' : t'.callers = fs' at hstack
  simp only [Thread.observe, hexecute, List.tail_cons]
  cases hstack with
  | @cons place' rest s' _ f' _ fs' hsheet hlinked hrest =>
      refine ⟨[], { frame := f'.pushAny result, callers := fs', world := u' },
        .single ⟨h.current, ?_, ?_⟩,
        ⟨.cons hsheet (hlinked.pushAny hplain) hrest, hworlds, hready, ?_⟩,
        .of_eq h.worlds.regular hregistry,
        List.forall_mem_nil _⟩
      · simp only [Thread.step, hexecute', Thread.resume, hcallers']
      · simp only [Thread.observe, hexecute', List.tail_cons]
      · rintro ⟨other, hother, hprobed⟩
        exact harmed ⟨other, List.mem_cons_of_mem _ hother, hprobed⟩

/-- Both sides return from the first call. -/
theorem ends_leave (h : p.Poised place places s insn drawn t t') {result : Option Value}
    {u u' : World} (hexecute' : (s.weave.plan.divert t.frame.pos drawn insn).1.insn.execute
      t'.frame t'.world = .ok (.leave result, u'))
    (hw : Machine.Worlds p.key t.world t'.world u u') (hcallers : t.callers = []) :
    p.Ends (.ok result) u t' := by
  obtain ⟨hworlds, hready, -, hregistry⟩ := hp.executed_worlds h hw
  have hstack := h.callers
  rw [hcallers] at hstack
  generalize hcallers' : t'.callers = fs' at hstack
  cases hstack with
  | nil =>
      refine ⟨_, u', h.current, ?_, hworlds, hready, .of_eq h.worlds.regular hregistry⟩
      simp only [Thread.step, hexecute', Thread.resume, hcallers']

omit hp in
/-- A frame that waits for a call goes on right behind it, since no probe stands there. -/
theorem linked_call (h : p.Poised place places s insn drawn t t') {g g' : Frame}
    {name descriptor : String} {args : List Value}
    (hfits : (Outcome.call g name descriptor args).Fits insn)
    (hframes : (⟨s.weave.body, t.frame.pos, s.body', t'.frame.pos,
      s.weave.body.maxLocals.toNat, s.extras⟩ : Twins).Frames g g') :
    s.Linked g.next g'.next := by
  have hcall : (∃ f, Outcome.call g name descriptor args = .next f) ∨
      ∃ f n d a, Outcome.call g name descriptor args = .call f n d a := .inr ⟨_, _, _, _, rfl⟩
  have hprobe : (s.weave.plan.divert t.frame.pos drawn insn).1.probe = none := by
    rw [s.weave.plan.probe_divert t.frame hcall hfits]
    cases insn <;> rfl
  obtain ⟨c, hc, hd, -⟩ := h.chunk
  have hstart : s.weave.start (t.frame.pos + 1) = t'.frame.pos + 1 := by
    rw [Weave.start_succ_eq_main hc, hd, hprobe, h.main]
    rfl
  have hpos : g.next.pos = t.frame.pos + 1 := congrArg (· + 1) hframes.pos
  have hpos' : g'.next.pos = t'.frame.pos + 1 := congrArg (· + 1) hframes.pos'
  refine ⟨?_, hframes.body, rfl, hframes.body', rfl, hframes.stack, hframes.locals,
    hframes.count, hframes.plainStack, hframes.plainLocals⟩
  rw [hpos, hpos', ← hstart]
  exact at_next h hcall hfits

/-- Both sides call a method, or there is none. -/
theorem step_call (h : p.Poised place places s insn drawn t t') {g g' : Frame} {u u' : World}
    {name descriptor : String} {args : List Value} {d : MethodDescriptor}
    (hexecute : insn.execute t.frame t.world = .ok (.call g name descriptor args, u))
    (hexecute' : (s.weave.plan.divert t.frame.pos drawn insn).1.insn.execute t'.frame t'.world =
      .ok (.call g' name descriptor args, u'))
    (hframes : (⟨s.weave.body, t.frame.pos, s.body', t'.frame.pos,
      s.weave.body.maxLocals.toNat, s.extras⟩ : Twins).Frames g g')
    (haccessor : name ≠ Entry.accessor) (hinitializer : name ≠ Method.initializerName)
    (hparse : MethodDescriptor.parse descriptor = .ok d) (hlength : args.length = d.params.length)
    (hplain : ∀ v ∈ args, v.Plain) (hw : Machine.Worlds p.key t.world t'.world u u') :
    (∃ t₁, t.step insn = .running t₁ ∧
      p.Continues (place :: places) (t.observe insn (place :: places)).2 t₁
        (t.observe insn (place :: places)).1 t') ∨
    ∃ e, t.step insn = .ended (.error e) u ∧ p.Ends (.error e) u t' := by
  obtain ⟨hworlds, hready, harmed, hregistry⟩ := hp.executed_worlds h hw
  rcases hp.code name descriptor (.inl ⟨haccessor, hinitializer⟩) with ⟨hnone, hnone'⟩ |
    ⟨place', s', hplace, hsheet, hsome, hsome'⟩
  · refine .inr ⟨.noCode (name ++ descriptor), ?_, _, u', h.current, ?_, hworlds, hready,
      .of_eq h.worlds.regular hregistry⟩
    · simp only [Thread.step, hexecute, Thread.resume, World.code, hworlds.cls, hnone]
    · simp only [Thread.step, hexecute', Thread.resume, World.code, hworlds.cls', hnone']
  · have hfills : s'.fills = false := by
      by_contra hfills
      exact hinitializer (hp.fills name descriptor place' s' hplace hsheet
        (by simpa using hfills)).1
    have hargs : args.length ≤ s'.weave.body.maxLocals.toNat := by
      rw [hlength]
      exact hp.params name descriptor place' s' d hplace hsheet hparse
    obtain ⟨xs, f', u'', hrun, hlinked, hworlds', hready', harmed', hnoted, hxs⟩ :=
      hp.path_entered hsheet hworlds (fun _ => hready) (by simp [hfills]) hargs hplain
        (place' :: place :: places) (g'.next :: t'.callers)
    have hfirst : Moment.Leads ⟨place :: places, t'⟩
        (s.weave.plan.divert t.frame.pos drawn insn).1.insn
        ⟨place' :: place :: places,
          { frame := .enter s'.body' args, callers := g'.next :: t'.callers, world := u' }⟩ := by
      refine ⟨h.current, ?_, ?_⟩
      · simp only [Thread.step, hexecute', Thread.resume, World.code, hworlds.cls', hsome']
      · simp only [Thread.observe, hexecute', hworlds.cls', hp.place' name descriptor place' hplace]
    have hcaller := linked_call h (Instruction.execute_fits hexecute) hframes
    have hobserve : t.observe insn (place :: places) =
        ([⟨place', 0, .entered⟩], place' :: place :: places) := by
      simp only [Thread.observe, hexecute, hworlds.cls, hplace]
    refine .inl ⟨{ frame := .enter s'.weave.body args, callers := g.next :: t.callers, world := u },
      ?_, ?_⟩
    · simp only [Thread.step, hexecute, Thread.resume, World.code, hworlds.cls, hsome]
    · rw [hobserve]
      refine ⟨xs, _, .cons hfirst hrun, ⟨.cons hsheet hlinked (.cons h.sheet hcaller h.callers),
        hworlds', hready', ?_⟩, hregistry ▸ hnoted, fun x hx => ⟨place', place :: places, s',
        g'.next :: t'.callers, rfl, hsheet, .cons h.sheet hcaller h.callers, hxs x hx⟩⟩
      rintro ⟨other, hother, so, hso, hprobed⟩
      rcases List.mem_cons.1 hother with rfl | hother
      · rw [hsheet] at hso
        cases hso
        exact harmed' hprobed
      · refine (harmed ⟨other, hother, so, hso, hprobed⟩).counted ?_
        rw [hp.own]
        exact hnoted.counted

end Good

end Pairing

end BytecodeCoverage
