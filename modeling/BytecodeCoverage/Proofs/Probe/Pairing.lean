import BytecodeCoverage.Proofs.Probe.Entering
import BytecodeCoverage.Proofs.Probe.Redirect
import BytecodeCoverage.Proofs.Probe.Weave

/-!
# Classes and their counterparts

A pairing says what becomes of a class: of each method with code there is a sheet with its woven
code.  Some methods are probed and some are not; one may begin with filling the field.

Two threads of the classes correspond when their frames do, one by one.  Corresponding frames hold
the same values, except that probes keep their arrays in additional variables; the position in the
woven code is that of the same instruction, or where code arrives that falls through to it.

**Main definitions.**
* `Sheet`, `Pairing`: a method or a class with its counterpart.
* `Pairing.note`: what an event does to the tally of the class.
* `Weave.At`, `Pairing.Threads`: corresponding positions and threads.

**Results.**
* `Weave.path_main`: from a corresponding position to the instruction.
* `Weave.path_window`: from a window to its destination.
* `Sheet.passes_site`: the probe of a site, if it has one.
-/

namespace BytecodeCoverage

open Machine

/-- A plan that probes nothing. -/
def Plan.nothing : Plan where
  lines := []
  jumps := []
  switches := .empty

/-- A method with code and its counterpart. -/
structure Sheet where
  weave : Weave
  body' : Body
  /-- Whether the field is filled first. -/
  fills : Bool
  /-- Whether the method is probed. -/
  probed : Bool

namespace Sheet

/-- What the probes of the method keep in their local variables. -/
def extras (s : Sheet) : List Value :=
  if s.probed then s.weave.style.extras else []

/-- How high the operands of the counterpart get while those of the method are at a height. -/
def height (s : Sheet) (n : Nat) : Nat :=
  max (n + if s.probed then (Probe.depth s.weave.style.mode).toNat else 0)
    (if s.fills then 1 else 0)

theorem le_height (s : Sheet) (n : Nat) : n ≤ s.height n :=
  Nat.le_trans (Nat.le_add_right _ _) (Nat.le_max_left _ _)

/-- What the counterpart of a method looks like, and what the method keeps to. -/
structure Good (s : Sheet) (slots : Nat) : Prop where
  code : s.body'.code = s.weave.code
  lead : s.weave.lead = (if s.fills then s.weave.style.counters.fill else []) ++
    if s.probed then s.weave.style.prologue s.weave.body.maxLocals else []
  valid : s.weave.Valid
  maxLocals : s.body'.maxLocals.toNat = s.weave.body.maxLocals.toNat + s.extras.length
  room : s.weave.body.maxLocals.toNat ≤ 65533
  unaware : ∀ insn ∈ s.weave.body.code, insn.Unaware
  localIndex : ∀ insn ∈ s.weave.body.code, ∀ index, insn.localIndex? = some index →
    index.toNat < s.weave.body.maxLocals.toNat
  slot : ∀ site slot, s.weave.slots.slot? site = some slot → slot < slots
  plain : s.probed = false → s.weave.plan = .nothing

end Sheet

/-- A class and its counterpart. -/
structure Pairing where
  cls : ClassFile
  cls' : ClassFile
  style : ProbeStyle
  /-- The number of slots of the class. -/
  slots : Nat
  /-- The sheets of the methods with code, by the places of the methods. -/
  sheets : Nat → Option Sheet

/-- What the probe at a site does to the tally of its class, if there is one. -/
def Weave.tallied (v : Weave) (site : Option ProbeSite) (t : Tally) : Tally :=
  match site with
  | none => t
  | some site =>
      match v.slots.slot? site with
      | none => t
      | some slot => v.style.tallied site slot t

namespace Pairing

variable (p : Pairing)

/-- What an event does to the tally of the class. -/
def note (t : Tally) (e : Event) : Tally :=
  match p.sheets e.method with
  | none => t
  | some s =>
      match e.deed with
      | .entered => if s.probed then p.style.entered p.slots t else t
      | deed => s.weave.tallied (s.weave.plan.site? e.index deed) t

/-- What events do to the tally of the class. -/
def noteAll (t : Tally) (events : List Event) : Tally :=
  events.foldl p.note t

theorem noteAll_append (t : Tally) (a b : List Event) :
    p.noteAll t (a ++ b) = p.noteAll (p.noteAll t a) b :=
  List.foldl_append

/-- A marker that an event passes stands where the event says. -/
def Marked (e : Event) : Prop :=
  ∀ number, e.deed = .passed number →
    ∃ s, p.sheets e.method = some s ∧ s.weave.body.code[e.index]? = some (.line number)

/-- The second registry comes from the first by noting events. -/
structure Noted (r : Registry) (events : List Event) (r' : Registry) : Prop where
  counted : Registry.Counted p.cls.name r r'
  tally : r'.tally p.cls.name = p.noteAll (r.tally p.cls.name) events
  marked : ∀ e ∈ events, p.Marked e

namespace Noted

variable {p} {r r₁ r₂ : Registry} {a b : List Event}

theorem refl (h : r.Regular) : p.Noted r [] r where
  counted := .refl h
  tally := rfl
  marked := by simp

theorem trans (h₁ : p.Noted r a r₁) (h₂ : p.Noted r₁ b r₂) : p.Noted r (a ++ b) r₂ where
  counted := h₁.counted.trans h₂.counted
  tally := by rw [h₂.tally, h₁.tally, noteAll_append]
  marked := by
    intro e he
    rcases List.mem_append.1 he with he | he
    · exact h₁.marked e he
    · exact h₂.marked e he

theorem of_eq (h : r.Regular) (heq : r₁ = r) : p.Noted r [] r₁ := by
  subst heq
  exact .refl h

/-- Entering a method is noted. -/
theorem entered {place : Nat} (hcounted : Registry.Counted p.cls.name r r₁)
    (htally : r₁.tally p.cls.name = p.note (r.tally p.cls.name) ⟨place, 0, .entered⟩) :
    p.Noted r [⟨place, 0, .entered⟩] r₁ where
  counted := hcounted
  tally := htally
  marked := by simp [Marked]

end Noted

/-- The field of the class that may hold the counters. -/
def key : String :=
  Entry.fieldKey p.cls.name

/-- What the counterpart of a class looks like. -/
structure Good : Prop where
  name' : p.cls'.name = p.cls.name
  own : p.style.counters.className = p.cls.name
  notOwner : p.cls.name ≠ Entry.owner
  traced : ∀ name ∈ p.style.traced, name = p.style.counters.className
  sheet : ∀ place s, p.sheets place = some s → s.Good p.slots
  /-- Only methods of the class have sheets. -/
  outside : ∀ place, p.cls.methods.length ≤ place → p.sheets place = none
  style : ∀ place s, p.sheets place = some s → s.weave.style = p.style
  /-- Both classes have the same methods, apart from those that were added. -/
  code : ∀ name descriptor, (name ≠ Entry.accessor ∧ name ≠ Method.initializerName) ∨
      (p.cls.place? name descriptor).isSome →
    ((p.cls.method? name descriptor).bind Method.body = none ∧
        (p.cls'.method? name descriptor).bind Method.body = none) ∨
      ∃ place s, p.cls.place? name descriptor = some place ∧ p.sheets place = some s ∧
        (p.cls.method? name descriptor).bind Method.body = some s.weave.body ∧
        (p.cls'.method? name descriptor).bind Method.body = some s.body'
  /-- There is room for the parameters. -/
  params : ∀ name descriptor place s d, p.cls.place? name descriptor = some place →
    p.sheets place = some s → MethodDescriptor.parse descriptor = .ok d →
    d.params.length ≤ s.weave.body.maxLocals.toNat
  fills : ∀ name descriptor place s, p.cls.place? name descriptor = some place →
    p.sheets place = some s → s.fills = true →
    name = Method.initializerName ∧ p.style.counters.strategy = .field
  /-- The methods keep their places. -/
  place' : ∀ name descriptor place, p.cls.place? name descriptor = some place →
    p.cls'.place? name descriptor = some place
  accessor : p.style.counters.strategy = .field →
    (p.cls'.method? Entry.accessor p.style.counters.accessorDescriptor).bind Method.body =
      some p.style.counters.accessorBody
  /-- The members that are added come after the methods. -/
  accessorPlace : p.style.counters.strategy = .field →
    p.cls'.place? Entry.accessor p.style.counters.accessorDescriptor = some p.cls.methods.length
  initializerPlace : p.style.counters.strategy = .field →
    p.cls.method? Method.initializerName "()V" = none →
    p.cls'.place? Method.initializerName "()V" = some (p.cls.methods.length + 1)
  /-- The class initializer, if there is one, fills the field if there is one. -/
  started : ∀ m, p.cls.method? Method.initializerName "()V" = some m →
    ∃ place s, p.cls.place? Method.initializerName "()V" = some place ∧
      p.sheets place = some s ∧
      (p.cls.method? Method.initializerName "()V").bind Method.body = some s.weave.body ∧
      (p.cls'.method? Method.initializerName "()V").bind Method.body = some s.body' ∧
      (p.style.counters.strategy = .field → s.fills = true)
  /-- If there is none, one is added that fills the field, if there is one. -/
  unstarted : p.cls.method? Method.initializerName "()V" = none →
    p.cls'.method? Method.initializerName "()V" =
      if p.style.counters.strategy = .field then some p.style.counters.initializer else none

/-- Worlds of the class and its counterpart. -/
structure Worlds (w w' : World) : Prop where
  cls : w.cls = p.cls
  cls' : w'.cls = p.cls'
  shared : ∀ other, other ≠ p.key → w'.statics.get? other = w.statics.get? other
  plain : ∀ other v, w.statics.get? other = some v → v.Plain
  field : w'.statics.get? p.key = none ∨ w'.statics.get? p.key = some (.hits p.cls.name)
  made : w'.statics.get? p.key ≠ none → (w'.registry.lookup? p.cls.name).isSome
  regular : w'.registry.Regular
  slots : w'.registry.slotCount? p.cls.name = some p.slots

/-- The field holds the counters if code takes them from there. -/
def Ready (w : World) : Prop :=
  p.style.counters.strategy = .field → p.style.Ready w

end Pairing

/-- A position in the woven code corresponds to a position in the code. -/
inductive Weave.At (v : Weave) (i : Nat) : Nat → Prop
  /-- Code falls through to the instruction. -/
  | fell : (∀ c, v.chunks[i]? = some c → c.reached = true) → At v i (v.start i)
  /-- Code jumps to a label. -/
  | jumped {placed : Label} : v.body.code[i]? = some (.label placed) → At v i (v.main i)

/-- Only labels are arrived at otherwise than by falling through. -/
theorem Weave.At.reached_or_label {v : Weave} {i pos : Nat} {c : Chunk} {insn : Instruction}
    (h : v.At i pos) (hc : v.chunks[i]? = some c) (hinsn : v.body.code[i]? = some insn) :
    c.reached = true ∨ ∃ placed, insn = .label placed := by
  cases h with
  | fell hreached => exact .inl (hreached c hc)
  | @jumped placed hlabel =>
      rw [hinsn] at hlabel
      exact .inr ⟨placed, by simpa using hlabel⟩

/-- Corresponding frames of a method. -/
structure Sheet.Linked (s : Sheet) (f f' : Frame) : Prop where
  at' : s.weave.At f.pos f'.pos
  twins : (⟨s.weave.body, f.pos, s.body', f'.pos, s.weave.body.maxLocals.toNat, s.extras⟩ :
    Twins).Frames f f'

namespace Pairing

/-- Corresponding stacks of frames, with the places of the methods. -/
inductive Stacked (p : Pairing) : List Nat → List Frame → List Frame → Prop
  | nil : Stacked p [] [] []
  | cons {place : Nat} {places : List Nat} {s : Sheet} {f f' : Frame} {fs fs' : List Frame} :
      p.sheets place = some s → s.Linked f f' → Stacked p places fs fs' →
      Stacked p (place :: places) (f :: fs) (f' :: fs')

/-- One of the methods under way is probed. -/
def Probing (p : Pairing) (places : List Nat) : Prop :=
  ∃ place ∈ places, ∃ s, p.sheets place = some s ∧ s.probed = true

/-- Corresponding threads. -/
structure Threads (p : Pairing) (places : List Nat) (t t' : Thread) : Prop where
  stack : p.Stacked places (t.frame :: t.callers) (t'.frame :: t'.callers)
  worlds : p.Worlds t.world t'.world
  ready : p.Ready t'.world
  armed : p.Probing places → p.style.Armed t'.world.registry

end Pairing

/-! ## Ways through woven code -/

namespace Weave

variable {v : Weave} {body' : Body} {i : Nat} {insn : Instruction} {σ τ : Store}

/-- A jump that is always taken. -/
theorem leads_goto {pos q : Nat} {target : Label} (places : List Nat) (callers : List Frame)
    (hinsn : body'.code[pos]? = some (.jump .goto target))
    (htarget : body'.position? target = some q) :
    Moment.Leads ⟨places, σ.thread body' pos callers⟩ (.jump .goto target)
      ⟨places, σ.thread body' q callers⟩ := by
  have hexecute : (Instruction.jump .goto target).execute (σ.frame body' pos) σ.world =
      .ok (.jump (σ.frame body' pos) target, σ.world) := by
    simp [Instruction.execute, branch, test?, comparison?, bind, Except.bind]
  refine ⟨hinsn, ?_, Thread.places_observe_jump hexecute places⟩
  simp only [Thread.step, Store.thread, hexecute, Thread.resume]
  simp only [Store.frame, htarget]

/-- A label of the code stands at its main position. -/
theorem position?_main (hv : v.Valid) (hcode : body'.code = v.code) {label : Label} {j : Nat}
    (hj : v.body.position? label = some j) : body'.position? label = some (v.main j) := by
  have hold := hv.drawn.below _ (List.mem_of_getElem? (Body.getElem?_position hj)) label
    (by simp [Instruction.labels])
  rw [position?_of_old hv hcode hold, hj]
  rfl

/-- Code that arrives at an instruction gets to it without counting anything. -/
theorem path_main (hv : v.Valid) (hcode : body'.code = v.code)
    (hinsn : v.body.code[i]? = some insn) {pos : Nat} (hat : v.At i pos) (places : List Nat)
    (callers : List Frame) :
    ∃ xs, Path xs ⟨places, σ.thread body' pos callers⟩ ⟨places, σ.thread body' (v.main i) callers⟩ ∧
      ∀ x ∈ xs, x.Amid body' places callers σ.stack.length v.Beside := by
  cases hat with
  | jumped hlabel => exact ⟨[], .nil _, List.forall_mem_nil _⟩
  | fell hreached =>
      obtain ⟨c, drawn, hc, hd, -⟩ := exists_chunk hinsn
      rcases start_cases hv hc (hreached c hc) with
        heq | ⟨hwindows, hlt, placed, hplaced, hgoto⟩
      · rw [heq]
        exact ⟨[], .nil _, List.forall_mem_nil _⟩
      · obtain rfl := v.plan.insn_divert_eq_label.1 (hd ▸ hplaced)
        have hposition := Body.position?_of_nodup (hv.sound hwindows).nodup hinsn
        refine ⟨_, .single (leads_goto places callers (hcode ▸ hgoto)
          (position?_main hv hcode hposition)), ?_⟩
        simp only [List.mem_singleton, forall_eq]
        exact ⟨rfl, rfl, rfl, Nat.le_refl _, beside_before (Nat.le_refl _) hlt⟩

/-- A window counts its outcome and goes on at its destination. -/
theorem path_window (hv : v.Valid) (hcode : body'.code = v.code) {w : Window}
    (hw : w ∈ v.windows) (hprobe : PassesAll (v.emit [.probe w.site]) σ τ)
    (hstack : τ.stack = σ.stack) (places : List Nat) (callers : List Frame) :
    ∃ j pos xs, v.body.position? w.destination = some j ∧ body'.position? w.label = some pos ∧
      Path xs ⟨places, σ.thread body' pos callers⟩ ⟨places, τ.thread body' (v.main j) callers⟩ ∧
      ∀ x ∈ xs, x.Amid body' places callers
        (σ.stack.length + Instruction.peak (v.emit [.probe w.site])) v.Beside := by
  obtain ⟨j, pos, rest, hj, hpos, hdrop, hstart, hrest⟩ := exists_window hv hcode hw
  obtain ⟨xs, hwindow, hxs⟩ := (PassesAll.cons (passes_label w.label) hprobe).path body' pos places
    callers (hcode ▸ hdrop)
  have hpeak : Instruction.peak (.label w.label :: v.emit [.probe w.site]) =
      Instruction.peak (v.emit [.probe w.site]) := by
    simp [Instruction.peak, Instruction.effect]
  rw [List.length_cons, Nat.add_comm _ 1, ← Nat.add_assoc] at hwindow hxs
  rw [hpeak] at hxs
  rcases hrest with hend | ⟨hlt, more, rfl⟩
  · rw [hend] at hwindow hxs
    exact ⟨j, pos, xs, hj, hpos, hwindow, fun x hx => (hxs x hx).mono (Nat.le_refl _)
      fun at' hat => beside_before (Nat.le_trans hstart hat.1) hat.2⟩
  · have hgoto : body'.code[pos + 1 + (v.emit [.probe w.site]).length]? =
        some (.jump .goto w.destination) := by
      rw [← List.head?_drop, hcode, Nat.add_assoc, ← List.drop_drop, hdrop, Nat.add_comm 1,
        List.drop_succ_cons, List.drop_left]
      rfl
    refine ⟨j, pos, _, hj, hpos, hwindow.append (.single
      (leads_goto places callers hgoto (position?_main hv hcode hj))),
      List.forall_mem_append.2 ⟨fun x hx => (hxs x hx).mono (Nat.le_refl _) fun at' hat =>
        beside_before (Nat.le_trans hstart hat.1) (Nat.lt_trans hat.2 hlt), ?_⟩⟩
    simp only [List.mem_singleton, forall_eq]
    refine ⟨rfl, rfl, rfl, ?_, beside_before (Nat.le_trans hstart ?_) hlt⟩
    · show τ.stack.length ≤ _
      rw [hstack]
      exact Nat.le_add_right _ _
    · exact Nat.le_trans (Nat.le_succ pos) (Nat.le_add_right _ _)

end Weave

namespace Sheet

variable {s : Sheet} {slots : Nat} {σ : Store} {base : List Value}

/-- A method that is not probed counts nothing. -/
theorem site?_nothing (index : Nat) (deed : Deed) : Plan.nothing.site? index deed = none := by
  cases deed <;> rfl

/-- A method with a site to count in is probed. -/
theorem Good.probed_of_site? (hs : s.Good slots) {index : Nat} {deed : Deed} {site : ProbeSite}
    (h : s.weave.plan.site? index deed = some site) : s.probed = true := by
  by_contra hplain
  rw [hs.plain (by simpa using hplain), site?_nothing] at h
  cases h

/-- The operands of the probe for a deed. -/
theorem peak_site (hs : s.Good slots) (index : Nat) (deed : Option Deed) :
    Instruction.peak
        (s.weave.emit ((deed.bind (s.weave.plan.site? index)).map Item.probe).toList) ≤
      if s.probed then (Probe.depth s.weave.style.mode).toNat else 0 := by
  cases hsite : deed.bind (s.weave.plan.site? index) with
  | none => exact Nat.zero_le _
  | some site =>
      have hprobed : s.probed = true := by
        obtain ⟨_, -, hsite⟩ := Option.bind_eq_some_iff.1 hsite
        exact hs.probed_of_site? hsite
      rw [if_pos hprobed]
      simp only [Option.map_some, Option.toList_some, Weave.emit, ProbeStyle.emit,
        List.flatMap_cons, ProbeStyle.item, List.flatMap_nil, List.append_nil]
      cases s.weave.slots.slot? site with
      | none => exact Nat.zero_le _
      | some slot => exact s.weave.style.peak_probe _ site slot

/-- The probe for a deed, if there is one, counts it. -/
theorem passes_site (hs : s.Good slots) (index : Nat) (deed : Option Deed)
    (htraced : ∀ name ∈ s.weave.style.traced, name = s.weave.style.counters.className)
    (hr : σ.world.registry.Regular)
    (hslots : σ.world.registry.slotCount? s.weave.style.counters.className = some slots)
    (harmed : s.probed = true → s.weave.style.Armed σ.world.registry)
    (hlocals : σ.locals = base ++ s.extras) (hbase : base.length = s.weave.body.maxLocals.toNat) :
    ∃ registry,
      PassesAll (s.weave.emit ((deed.bind (s.weave.plan.site? index)).map Item.probe).toList) σ
        (σ.withRegistry registry) ∧
      Registry.Counted s.weave.style.counters.className σ.world.registry registry ∧
      registry.tally s.weave.style.counters.className =
        s.weave.tallied (deed.bind (s.weave.plan.site? index))
          (σ.world.registry.tally s.weave.style.counters.className) := by
  cases hsite : deed.bind (s.weave.plan.site? index) with
  | none => exact ⟨σ.world.registry, .nil _, .refl hr, rfl⟩
  | some site =>
      have hprobed : s.probed = true := by
        obtain ⟨_, -, hsite⟩ := Option.bind_eq_some_iff.1 hsite
        exact hs.probed_of_site? hsite
      cases hslot : s.weave.slots.slot? site with
      | none =>
          refine ⟨σ.world.registry, ?_, .refl hr, ?_⟩
          · simp only [Option.map_some, Option.toList_some, Weave.emit, ProbeStyle.emit,
              List.flatMap_cons, ProbeStyle.item, hslot, List.flatMap_nil, List.append_nil]
            exact .nil _
          · simp only [Weave.tallied, hslot]
      | some slot =>
          simp only [extras, hprobed, if_true] at hlocals
          obtain ⟨registry, hpasses, hcounted, htally⟩ := s.weave.style.passes_probe site htraced hr
            hslots (harmed hprobed) (hs.slot site slot hslot) hlocals hbase hs.room
          refine ⟨registry, ?_, hcounted, ?_⟩
          · simp only [Option.map_some, Option.toList_some, Weave.emit, ProbeStyle.emit,
              List.flatMap_cons, ProbeStyle.item, hslot, List.flatMap_nil, List.append_nil]
            exact hpasses
          · simp only [Weave.tallied, hslot]
            exact htally

end Sheet

end BytecodeCoverage
