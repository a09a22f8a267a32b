import BytecodeCoverage.Proofs.Probe.Simulation

/-!
# What the moments of corresponding threads show

A moment shows something of a class if the position is that of an instruction of the class.  While
added code runs, nothing is shown.  So what a run with probes shows is what the run without them
shows, as far as the budget goes.

The operands of added code are few.  So the frames of a run with probes are hardly higher than
those of the run without them.

**Main definitions.**
* `Moment.sight?`: what a moment shows.
* `Pairing.Backed`: frames that are hardly higher than those of the other run.
* `Pairing.Shows`: two runs that show the same.

**Results.**
* `Pairing.Good.sight?_poised`: the same is shown at an instruction and at its counterpart.
* `Pairing.Good.shows_threads`: runs of corresponding threads.
-/

namespace BytecodeCoverage

namespace Machine

/-- What can be seen of the methods of a class: those under way, the innermost first, the
instruction of the innermost one that is next, and its operands and local variables. -/
structure Sight where
  places : List Nat
  index : Nat
  stack : List Value
  locals : List Value

namespace Moment

/-- What a moment shows, given where the instructions of each method stand and how many local
variables each method has. -/
def sight? (positions : Nat → List Nat) (count : Nat → Nat) (x : Moment) : Option Sight :=
  x.places.head?.bind fun place =>
    ((positions place).idxOf? x.thread.frame.pos).map fun index =>
      { places := x.places
        index
        stack := x.thread.frame.stack
        locals := x.thread.frame.locals.take (count place) }

variable {positions : Nat → List Nat} {count : Nat → Nat} {x : Moment} {place i : Nat}
  {places : List Nat}

theorem sight?_of_getElem? (hplaces : x.places = place :: places)
    (hordered : (positions place).Pairwise (· < ·))
    (hpos : (positions place)[i]? = some x.thread.frame.pos) :
    x.sight? positions count = some
      { places := x.places
        index := i
        stack := x.thread.frame.stack
        locals := x.thread.frame.locals.take (count place) } := by
  obtain ⟨hlt, hget⟩ := List.getElem?_eq_some_iff.1 hpos
  have hindex : (positions place).idxOf? x.thread.frame.pos = some i :=
    List.idxOf?_eq_some_iff.2 ⟨hlt, hget, fun j hj =>
      hget ▸ Nat.ne_of_lt (List.pairwise_iff_getElem.1 hordered j i _ hlt hj)⟩
  rw [sight?, hplaces, List.head?_cons, Option.bind_some, hindex, Option.map_some]

theorem sight?_eq_none (hplaces : x.places = place :: places)
    (hpos : x.thread.frame.pos ∉ positions place) : x.sight? positions count = none := by
  rw [sight?, hplaces, List.head?_cons, Option.bind_some, List.idxOf?_eq_none_iff.2 hpos,
    Option.map_none]

end Moment

end Machine

open Machine

/-- Where the instructions of a method stand in its counterpart. -/
def Sheet.positions (s : Sheet) : List Nat :=
  (List.range s.weave.body.code.length).map s.weave.main

/-- The instructions keep their order. -/
theorem Sheet.pairwise_positions (s : Sheet) : s.positions.Pairwise (· < ·) := by
  rw [positions, List.pairwise_map]
  exact List.pairwise_lt_range.imp_of_mem fun _ hj hlt =>
    Weave.main_lt_main hlt (List.mem_range.1 hj)

namespace Pairing

variable (p : Pairing)

/-- Where the instructions of the method at a place stand. -/
def positions (place : Nat) : List Nat :=
  ((p.sheets place).map fun s => List.range s.weave.body.code.length).getD []

/-- Where the same instructions stand in its counterpart. -/
def kept (place : Nat) : List Nat :=
  ((p.sheets place).map Sheet.positions).getD []

/-- The number of local variables of the method at a place. -/
def localCount (place : Nat) : Nat :=
  ((p.sheets place).map fun s => s.weave.body.maxLocals.toNat).getD 0

/-- What a moment shows of the class. -/
def sight? : Moment → Option Sight :=
  Moment.sight? p.positions p.localCount

/-- What a moment of the counterpart shows of the class. -/
def sight'? : Moment → Option Sight :=
  Moment.sight? p.kept p.localCount

/-- A frame of a member that was added, with as many operands as the member declares. -/
inductive Own (p : Pairing) : Nat → Frame → Prop
  | accessor {f : Frame} : p.style.counters.strategy = .field →
      f.body = p.style.counters.accessorBody → f.stack.length ≤ 2 → Own p p.cls.methods.length f
  | initializer {f : Frame} : p.style.counters.strategy = .field →
      p.cls.method? Method.initializerName "()V" = none →
      p.style.counters.initializer.body = some f.body → f.stack.length ≤ 1 →
      Own p (p.cls.methods.length + 1) f

/-- A frame of the counterpart is that of an added member, or hardly higher than some frame of the
same method at one of the given moments. -/
def Covers (trace : List Moment) (place : Nat) (f' : Frame) : Prop :=
  p.Own place f' ∨ ∃ s, p.sheets place = some s ∧ f'.body = s.body' ∧
    ∃ y ∈ trace, ∃ f, (place, f) ∈ y.frames ∧ f'.stack.length ≤ s.height f.stack.length

/-- All frames of a moment of the counterpart are covered by the given moments. -/
structure Backed (trace : List Moment) (x : Moment) : Prop where
  length : x.places.length = x.thread.callers.length + 1
  frames : ∀ place f', (place, f') ∈ x.frames → p.Covers trace place f'

/-- The moments `trace'` of the counterpart show what the moments `trace` show, unless they are cut
short, and are covered by them. -/
structure Shows (cut : Prop) (trace trace' : List Moment) : Prop where
  sights : trace'.filterMap p.sight'? <+: trace.filterMap p.sight?
  complete : ¬cut → trace'.filterMap p.sight'? = trace.filterMap p.sight?
  backed : ∀ x ∈ trace', p.Backed trace x

variable {p} {cut cut' : Prop} {trace trace' more more' : List Moment} {x y : Moment}

theorem Covers.mono {place : Nat} {f' : Frame} (h : p.Covers trace place f')
    (hsub : trace ⊆ more) : p.Covers more place f' :=
  h.imp_right fun ⟨s, hsheet, hbody, y, hy, hframe⟩ => ⟨s, hsheet, hbody, y, hsub hy, hframe⟩

theorem Backed.mono (h : p.Backed trace x) (hsub : trace ⊆ more) : p.Backed more x where
  length := h.length
  frames place f' hf' := (h.frames place f' hf').mono hsub

namespace Shows

theorem nil : p.Shows cut [] [] where
  sights := List.nil_prefix
  complete _ := rfl
  backed := List.forall_mem_nil _

theorem imp (h : p.Shows cut trace trace') (hcut : cut → cut') : p.Shows cut' trace trace' where
  sights := h.sights
  complete hnot := h.complete fun hc => hnot (hcut hc)
  backed := h.backed

/-- Nothing at all is seen of a run that is cut short at once. -/
theorem of_cut (h : cut) : p.Shows cut trace [] where
  sights := List.nil_prefix
  complete hnot := absurd h hnot
  backed := List.forall_mem_nil _

/-- Both sides go on from moments that show the same. -/
theorem cons (h : p.Shows cut trace trace') (hsight : p.sight'? x = p.sight? y)
    (hbacked : p.Backed (y :: trace) x) : p.Shows cut (y :: trace) (x :: trace') where
  sights := by
    rw [List.filterMap_cons, List.filterMap_cons, hsight]
    cases p.sight? y with
    | none => exact h.sights
    | some sight => exact (List.prefix_cons_inj sight).2 h.sights
  complete hnot := by rw [List.filterMap_cons, List.filterMap_cons, hsight, h.complete hnot]
  backed := List.forall_mem_cons.2 ⟨hbacked, fun z hz =>
    (h.backed z hz).mono (List.subset_cons_self _ _)⟩

/-- In the meantime nothing is shown. -/
theorem aside {xs : List Moment} (h : p.Shows cut trace trace')
    (hsight : ∀ x ∈ xs, p.sight'? x = none) (hbacked : ∀ x ∈ xs, p.Backed trace x) :
    p.Shows cut trace (xs ++ trace') := by
  have hnone : xs.filterMap p.sight'? = [] := List.filterMap_eq_nil_iff.2 hsight
  refine ⟨?_, fun hnot => ?_, List.forall_mem_append.2 ⟨hbacked, h.backed⟩⟩
  · rw [List.filterMap_append, hnone]
    exact h.sights
  · rw [List.filterMap_append, hnone]
    exact h.complete hnot

/-- A run that is not cut short is followed by another. -/
theorem append (h : p.Shows cut trace trace') (hnot : ¬cut) (hmore : p.Shows cut' more more') :
    p.Shows cut' (trace ++ more) (trace' ++ more') := by
  refine ⟨?_, fun hnot' => ?_, List.forall_mem_append.2 ⟨fun x hx => ?_, fun x hx => ?_⟩⟩
  · rw [List.filterMap_append, List.filterMap_append, h.complete hnot]
    exact (List.prefix_append_right_inj _).2 hmore.sights
  · rw [List.filterMap_append, List.filterMap_append, h.complete hnot, hmore.complete hnot']
  · exact (h.backed x hx).mono (List.subset_append_left _ _)
  · exact (hmore.backed x hx).mono (List.subset_append_right _ _)

/-- A run that is cut short is not followed by anything. -/
theorem append_of_cut (h : p.Shows cut trace trace') (hcut : cut') :
    p.Shows cut' (trace ++ more) trace' where
  sights := by
    rw [List.filterMap_append]
    exact List.prefix_append_of_prefix h.sights
  complete hnot := absurd hcut hnot
  backed x hx := (h.backed x hx).mono (List.subset_append_left _ _)

end Shows

/-! ## Frames that are covered -/

variable {place : Nat} {places : List Nat} {s : Sheet} {t t' : Thread}

theorem Stacked.length {fs fs' : List Frame} (h : p.Stacked places fs fs') :
    places.length = fs'.length := by
  induction h with
  | nil => rfl
  | cons _ _ _ ih => exact congrArg (· + 1) ih

/-- Frames that correspond to those of a moment are covered by it. -/
theorem Stacked.covers {fs fs' : List Frame} (h : p.Stacked places fs fs') (hy : y ∈ trace)
    (hframes : ∀ e ∈ places.zip fs, e ∈ y.frames) :
    ∀ e ∈ places.zip fs', p.Covers trace e.1 e.2 := by
  induction h with
  | nil => exact List.forall_mem_nil _
  | @cons place places s f f' fs fs' hsheet hlinked _ ih =>
      rw [List.zip_cons_cons, List.forall_mem_cons] at hframes ⊢
      refine ⟨.inr ⟨s, hsheet, hlinked.twins.body', y, hy, f, hframes.1, ?_⟩, ih hframes.2⟩
      exact Nat.le_trans (Nat.le_of_eq (congrArg List.length hlinked.twins.stack)) (s.le_height _)

/-- A moment is covered by the corresponding one if the innermost frame is hardly higher. -/
theorem backed_of_stacked (hsheet : p.sheets place = some s)
    (hcallers : p.Stacked places t.callers x.thread.callers) (hplaces : x.places = place :: places)
    (hbody : x.thread.frame.body = s.body')
    (hheight : x.thread.frame.stack.length ≤ s.height t.frame.stack.length)
    (hmem : ⟨place :: places, t⟩ ∈ trace) : p.Backed trace x where
  length := by rw [hplaces, List.length_cons, hcallers.length]
  frames q f' hf' := by
    rw [Moment.frames, hplaces, List.zip_cons_cons] at hf'
    rcases List.mem_cons.1 hf' with heq | hf'
    · cases heq
      exact .inr ⟨s, hsheet, hbody, _, hmem, t.frame, List.mem_cons_self, hheight⟩
    · exact hcallers.covers hmem (fun e he => List.mem_cons_of_mem _ he) _ hf'

/-- So are moments of corresponding threads. -/
theorem Threads.backed (h : p.Threads places t t') (hmem : ⟨places, t⟩ ∈ trace) :
    p.Backed trace ⟨places, t'⟩ where
  length := h.stack.length
  frames q f' hf' := h.stack.covers hmem (fun _ he => he) (q, f') hf'

/-- Moments of added code are covered. -/
theorem Aside.backed (h : p.Aside places t x) (hmem : ⟨places, t⟩ ∈ trace) :
    p.Backed trace x := by
  obtain ⟨place, rest, s, callers, rfl, hsheet, hcallers, hhere | ⟨hstrategy, f, hbody, hstack,
    hthere⟩⟩ := h
  · exact backed_of_stacked hsheet (hhere.callers ▸ hcallers) hhere.places hhere.body hhere.height
      hmem
  · have hmethod : p.Backed trace
        ⟨place :: rest, { frame := f, callers, world := x.thread.world }⟩ :=
      backed_of_stacked hsheet hcallers rfl hbody (hstack ▸ Nat.zero_le _) hmem
    refine ⟨?_, fun q f' hf' => ?_⟩
    · rw [hthere.places, hthere.callers, List.length_cons, hmethod.length]
      rfl
    · rw [Moment.frames, hthere.places, hthere.callers, List.zip_cons_cons] at hf'
      rcases List.mem_cons.1 hf' with heq | hf'
      · cases heq
        exact .inl (.accessor hstrategy hthere.body hthere.height)
      · exact hmethod.frames q f' hf'

namespace Good

variable (hp : p.Good)

include hp

/-! ## What is shown -/

/-- Nothing is shown of methods that are not those of the class. -/
theorem kept_of_outside (hplace : p.cls.methods.length ≤ place) : p.kept place = [] := by
  rw [kept, hp.outside place hplace]
  rfl

/-- Added code shows nothing. -/
theorem sight?_aside (h : p.Aside places t x) : p.sight'? x = none := by
  obtain ⟨place, rest, s, callers, rfl, hsheet, -, hhere | ⟨-, f, -, -, hthere⟩⟩ := h
  · refine Moment.sight?_eq_none hhere.places ?_
    rw [kept, hsheet, Option.map_some, Option.getD_some, Sheet.positions, List.mem_map]
    rintro ⟨i, hi, hmain⟩
    exact hhere.part i (List.mem_range.1 hi) hmain
  · refine Moment.sight?_eq_none hthere.places ?_
    rw [hp.kept_of_outside (Nat.le_refl _)]
    exact List.not_mem_nil

omit hp in
/-- The same is shown at an instruction and at what the plan has made of it. -/
theorem sight?_poised {insn : Instruction} {drawn : UInt32}
    (h : p.Poised place places s insn drawn t t') :
    p.sight'? ⟨place :: places, t'⟩ = p.sight? ⟨place :: places, t⟩ := by
  have hlt : t.frame.pos < s.weave.body.code.length := (List.getElem?_eq_some_iff.1 h.here).1
  have hpositions : p.positions place = List.range s.weave.body.code.length := by
    rw [positions, h.sheet, Option.map_some, Option.getD_some]
  have hkept : p.kept place = s.positions := by
    rw [kept, h.sheet, Option.map_some, Option.getD_some]
  have hcount : p.localCount place = s.weave.body.maxLocals.toNat := by
    rw [localCount, h.sheet, Option.map_some, Option.getD_some]
  have hlocals : t'.frame.locals.take s.weave.body.maxLocals.toNat =
      t.frame.locals.take s.weave.body.maxLocals.toNat := by
    rw [h.twins.locals, List.take_append_of_le_length (Nat.le_of_eq h.twins.count.symm)]
  have hmain : s.positions[t.frame.pos]? = some t'.frame.pos := by
    rw [Sheet.positions, List.getElem?_map, List.getElem?_range hlt, Option.map_some, h.main]
  have hfirst : p.sight? ⟨place :: places, t⟩ = some ⟨place :: places, t.frame.pos,
      t.frame.stack, t.frame.locals.take (p.localCount place)⟩ :=
    Moment.sight?_of_getElem? rfl (hpositions ▸ List.pairwise_lt_range)
      (hpositions ▸ List.getElem?_range hlt)
  have hsecond : p.sight'? ⟨place :: places, t'⟩ = some ⟨place :: places, t.frame.pos,
      t'.frame.stack, t'.frame.locals.take (p.localCount place)⟩ :=
    Moment.sight?_of_getElem? rfl (hkept ▸ s.pairwise_positions) (hkept ▸ hmain)
  rw [hfirst, hsecond, h.twins.stack, hcount, hlocals]

/-- At the end of the code nothing is shown. -/
theorem sight?_end (h : p.Threads places t t') (hend : t.frame.current? = none) :
    p.sight? ⟨places, t⟩ = none ∧ p.sight'? ⟨places, t'⟩ = none := by
  have hend' := hp.current?_eq_none h hend
  obtain ⟨hstack, -, -, -⟩ := h
  cases hstack with
  | @cons place rest s _ _ _ _ hsheet hlinked hcallers =>
      have hs := hp.sheet place s hsheet
      have hbody : t.frame.body = s.weave.body := hlinked.twins.body
      have hbody' : t'.frame.body = s.body' := hlinked.twins.body'
      rw [Frame.current?, hbody] at hend
      rw [Frame.current?, hbody', hs.code] at hend'
      constructor
      · refine Moment.sight?_eq_none rfl ?_
        rw [positions, hsheet, Option.map_some, Option.getD_some, List.mem_range]
        exact Nat.not_lt.2 (List.getElem?_eq_none_iff.1 hend)
      · refine Moment.sight?_eq_none rfl ?_
        rw [kept, hsheet, Option.map_some, Option.getD_some, Sheet.positions, List.mem_map]
        rintro ⟨i, hi, hmain⟩
        have hhere := List.getElem?_eq_getElem (List.mem_range.1 hi)
        obtain ⟨c, drawn, hc, -, -⟩ := Weave.exists_chunk hhere
        rw [← hmain, ← List.head?_drop, Weave.drop_main hc] at hend'
        cases hend'

/-! ## Runs -/

/-- Added code comes before what is shown. -/
theorem shows_path {xs : List Moment} {x₀ x₁ : Moment} (hpath : Path xs x₀ x₁)
    (hxs : ∀ x ∈ xs, p.Aside places t x) {budget budget' : Nat} (hle : budget' ≤ budget)
    (h : ∀ left ≤ budget, p.Shows ((x₁.thread.run left).result = .error .stepLimit)
      (Moment.trace budget ⟨places, t⟩) (x₁.trace left)) :
    p.Shows ((x₀.thread.run budget').result = .error .stepLimit)
      (Moment.trace budget ⟨places, t⟩) (x₀.trace budget') := by
  cases budget with
  | zero =>
      obtain rfl : budget' = 0 := Nat.le_zero.1 hle
      exact .nil
  | succ budget =>
      have hrest := h (budget' - xs.length) (Nat.le_trans (Nat.sub_le _ _) hle)
      rw [hpath.trace_eq]
      refine (hrest.imp fun hcut => ?_).aside (fun x hx => hp.sight?_aside
        (hxs x (List.mem_of_mem_take hx))) fun x hx => (hxs x (List.mem_of_mem_take hx)).backed
          List.mem_cons_self
      by_contra hlimit
      exact hlimit ((hpath.run_eq hlimit).2 ▸ hcut)

/-- One more step on both sides. -/
theorem shows_poised {budget left : Nat}
    (ih : ∀ {t t' : Thread} {places : List Nat} {left : Nat}, left ≤ budget →
      p.Threads places t t' →
      p.Shows ((t'.run left).result = .error .stepLimit) (Moment.trace budget ⟨places, t⟩)
        (Moment.trace left ⟨places, t'⟩))
    (hle : left + 1 ≤ budget + 1) {insn : Instruction} {drawn : UInt32}
    (h : p.Poised place places s insn drawn t t') (hinsn : t.frame.current? = some insn) :
    p.Shows ((t'.run (left + 1)).result = .error .stepLimit)
      (Moment.trace (budget + 1) ⟨place :: places, t⟩)
      (Moment.trace (left + 1) ⟨place :: places, t'⟩) := by
  have hbacked {trace : List Moment} :
      p.Backed (⟨place :: places, t⟩ :: trace) ⟨place :: places, t'⟩ :=
    backed_of_stacked h.sheet h.callers rfl h.twins.body' (Nat.le_trans
      (Nat.le_of_eq (congrArg List.length h.twins.stack)) (s.le_height _)) List.mem_cons_self
  rcases hp.step_poised h with ⟨t₁, hstep, ys, t₁', hpath, hthreads, -, hys⟩ |
    ⟨result, w, hstep, insn', w', hinsn', hstep', -⟩
  · cases hpath with
    | @cons _ y _ insn' _ hfirst hrest =>
        have hrun : t'.run (left + 1) = y.thread.run left := by
          simp [Thread.run, hfirst.current, hfirst.step]
        have hplaces : (t'.observe insn' (place :: places)).2 = y.places := hfirst.places
        have htrace : Moment.trace (budget + 1) ⟨place :: places, t⟩ = ⟨place :: places, t⟩ ::
            Moment.trace budget ⟨(t.observe insn (place :: places)).2, t₁⟩ := by
          simp only [Moment.trace, hinsn, hstep]
        have htrace' : Moment.trace (left + 1) ⟨place :: places, t'⟩ =
            ⟨place :: places, t'⟩ :: y.trace left := by
          simp only [Moment.trace, hfirst.current, hfirst.step, hplaces]
        rw [htrace, htrace', hrun]
        exact (hp.shows_path hrest hys (Nat.le_of_succ_le_succ hle) fun left hleft =>
          ih hleft hthreads).cons (sight?_poised h) hbacked
  · have htrace : Moment.trace (budget + 1) ⟨place :: places, t⟩ = [⟨place :: places, t⟩] := by
      simp only [Moment.trace, hinsn, hstep]
    have htrace' : Moment.trace (left + 1) ⟨place :: places, t'⟩ = [⟨place :: places, t'⟩] := by
      simp only [Moment.trace, hinsn', hstep']
    rw [htrace, htrace']
    exact Shows.nil.cons (sight?_poised h) hbacked

/-- What runs of corresponding threads show. -/
theorem shows_threads {budget budget' : Nat} (hle : budget' ≤ budget) (h : p.Threads places t t') :
    p.Shows ((t'.run budget').result = .error .stepLimit) (Moment.trace budget ⟨places, t⟩)
      (Moment.trace budget' ⟨places, t'⟩) := by
  induction budget generalizing t t' places budget' with
  | zero =>
      obtain rfl : budget' = 0 := Nat.le_zero.1 hle
      exact .nil
  | succ budget ih =>
      cases hinsn : t.frame.current? with
      | none =>
          have hinsn' := hp.current?_eq_none h hinsn
          obtain ⟨hnone, hnone'⟩ := hp.sight?_end h hinsn
          have htrace : Moment.trace (budget + 1) ⟨places, t⟩ = [⟨places, t⟩] := by
            simp only [Moment.trace, hinsn]
          rw [htrace]
          cases budget' with
          | zero => exact ⟨List.nil_prefix, fun _ => by simp [Moment.trace, hnone],
              List.forall_mem_nil _⟩
          | succ budget' =>
              have htrace' : Moment.trace (budget' + 1) ⟨places, t'⟩ = [⟨places, t'⟩] := by
                simp only [Moment.trace, hinsn']
              rw [htrace']
              exact Shows.nil.cons (hnone'.trans hnone.symm) (h.backed List.mem_cons_self)
      | some insn =>
          obtain ⟨xs, t₀', place, rest, s, drawn, rfl, hmain, hpoised, -, hxs⟩ :=
            hp.exists_poised h hinsn
          refine hp.shows_path hmain hxs hle fun left hleft => ?_
          cases left with
          | zero => exact .of_cut (by simp [Thread.run, hpoised.current])
          | succ left => exact hp.shows_poised ih hleft hpoised hinsn

end Good

end Pairing

end BytecodeCoverage
