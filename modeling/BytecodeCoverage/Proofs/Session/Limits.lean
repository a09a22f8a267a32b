import BytecodeCoverage.Proofs.Probe.Erasing
import BytecodeCoverage.Proofs.Probe.Tracing
import BytecodeCoverage.Proofs.Session.Behaviour

/-!
# Rewritten code keeps to its limits

Probes run on top of the operands of the program, and they keep their arrays in local variables
behind those of the program.  The limits of a rewritten body allow for both: its frames hold no more
operands than the body declares, and its code uses no local variable beyond those it declares.  In
the meantime the program sees its own operands and local variables only.

**Main definitions.**
* `Body.Keeps`: where the instructions of a body stand in rewritten code.
* `UsesBelow`: code with local variables below a limit.
* `ClassFile.WithinLimits`: what a run of a rewritten class keeps to.

**Results.**
* `Sheet.usesBelow`: the local variables of rewritten code.
* `Sheet.height_sheetOf_le`: the operands of rewritten code.
* `Session.limits_of_probed`: runs of an instrumented class.
-/

namespace BytecodeCoverage

open Machine

/-! ## Local variables -/

/-- The code uses local variables below a limit only. -/
def UsesBelow (limit : Nat) (code : List Instruction) : Prop :=
  ∀ insn ∈ code, ∀ index, insn.localIndex? = some index → index.toNat < limit

namespace UsesBelow

variable {limit more : Nat} {a b : List Instruction}

theorem append (ha : UsesBelow limit a) (hb : UsesBelow limit b) : UsesBelow limit (a ++ b) :=
  List.forall_mem_append.2 ⟨ha, hb⟩

/-- Code without local variables. -/
theorem of_none (h : ∀ insn ∈ a, insn.localIndex? = none) : UsesBelow limit a := by
  intro insn hinsn index hindex
  rw [h insn hinsn] at hindex
  cases hindex

/-- An instruction that uses a local variable. -/
theorem single {op : Opcode} {index : UInt16} (h : index.toNat < limit) :
    UsesBelow limit [.localVar op index] := by
  intro insn hinsn other hother
  obtain rfl := List.mem_singleton.1 hinsn
  obtain rfl := Option.some.inj hother
  exact h

end UsesBelow

theorem Instruction.localIndex?_pushInt (value : Int32) : (pushInt value).localIndex? = none := by
  obtain ⟨op, h⟩ | ⟨op, h⟩ | h := forms_of_pushInt value <;> rw [h] <;> rfl

theorem Plan.localIndex?_divert (plan : Plan) (index : Nat) (fresh : UInt32) (insn : Instruction) :
    (plan.divert index fresh insn).1.insn.localIndex? = insn.localIndex? := by
  cases insn with
  | jump op target =>
      simp only [divert]
      split <;> rfl
  | tableSwitch | lookupSwitch =>
      simp only [divert]
      split <;> rfl
  | _ => rfl

namespace ProbeStyle

variable {style : ProbeStyle} {array : UInt16} {limit : Nat}

theorem usesBelow_code (mode : HitMode) (slot : Nat) (h : array.toNat < limit) :
    UsesBelow limit (Probe.code mode array slot) := by
  have hslot : (Probe.pushSlot slot).localIndex? = none := Instruction.localIndex?_pushInt _
  refine (UsesBelow.single h).append (b := _ :: _) (.of_none (List.forall_mem_cons.2 ⟨hslot, ?_⟩))
  cases mode <;> simp [Instruction.localIndex?]

variable (hroom : array.toNat ≤ 65533)
include hroom

/-- The variables of the arrays. -/
theorem lt_of_room : array.toNat < array.toNat + style.extraLocals.toNat ∧
    (style.traced.isSome → (array + 1).toNat < array.toNat + style.extraLocals.toNat) := by
  rw [Probe.toNat_next hroom, extraLocals]
  cases style.traced with
  | none => exact ⟨Nat.lt_succ_self _, fun hsome => by cases hsome⟩
  | some name => exact ⟨Nat.lt_add_of_pos_right Nat.two_pos, fun _ => Nat.lt_succ_self _⟩

/-- A probe uses the variables of the arrays only. -/
theorem usesBelow_item (slots : MethodSlots) (site : ProbeSite) :
    UsesBelow (array.toNat + style.extraLocals.toNat) (style.item array slots (.probe site)) := by
  obtain ⟨hfirst, hsecond⟩ := style.lt_of_room hroom
  simp only [item]
  split
  · refine (usesBelow_code _ _ hfirst).append ?_
    cases site with
    | line number =>
        dsimp only
        split
        · rename_i htraced
          exact usesBelow_code _ _ (hsecond htraced)
        · exact .of_none (List.forall_mem_nil _)
    | _ => exact .of_none (List.forall_mem_nil _)
  · exact .of_none (List.forall_mem_nil _)

/-- So does the start of a method. -/
theorem usesBelow_prologue :
    UsesBelow (array.toNat + style.extraLocals.toNat) (style.prologue array) := by
  obtain ⟨hfirst, hsecond⟩ := style.lt_of_room hroom
  refine (UsesBelow.append (.of_none ?_) (.single hfirst)).append ?_
  · unfold Counters.acquire
    cases style.counters.strategy <;> cases style.counters.mode <;>
      simp [Instruction.localIndex?, Entry.callHits, Instruction.invokeStatic]
  · cases htraced : style.traced with
    | none => exact .of_none (List.forall_mem_nil _)
    | some name =>
        refine UsesBelow.append (a := [_, _]) (.of_none ?_) (.single (hsecond (htraced ▸ rfl)))
        simp [Instruction.localIndex?, Entry.callTrace, Instruction.invokeStatic]

end ProbeStyle

theorem Counters.localIndex?_fill (c : Counters) : ∀ insn ∈ c.fill, insn.localIndex? = none := by
  simp [fill, Instruction.invokeStatic, Instruction.localIndex?]

/-- The code of the method that fills the field uses no local variables. -/
theorem Counters.localIndex?_accessorBody (c : Counters) :
    ∀ insn ∈ c.accessorBody.code, insn.localIndex? = none := by
  rw [code_accessorBody]
  cases c.mode <;>
    simp [Instruction.localIndex?, Entry.callHits, Instruction.invokeStatic]

theorem Counters.maxStack_initializer {c : Counters} {body : Body}
    (h : c.initializer.body = some body) :
    body.maxStack = 1 ∧ body.code = c.fill ++ [.simple .returnVoid] := by
  obtain rfl := Option.some.inj h
  exact ⟨rfl, rfl⟩

/-- Rewritten code uses the local variables that it declares. -/
theorem Sheet.usesBelow {s : Sheet} {slots : Nat} (hs : s.Good slots) :
    UsesBelow s.body'.maxLocals.toNat s.body'.code := by
  have hfill : UsesBelow s.body'.maxLocals.toNat
      (if s.fills then s.weave.style.counters.fill else []) := by
    cases s.fills with
    | false => exact .of_none (List.forall_mem_nil _)
    | true => exact .of_none (Counters.localIndex?_fill _)
  have hbody {insn : Instruction} (hinsn : insn ∈ s.weave.body.code) {index : UInt16}
      (hindex : insn.localIndex? = some index) : index.toNat < s.body'.maxLocals.toNat := by
    have := hs.localIndex insn hinsn index hindex
    rw [hs.maxLocals]
    omega
  rw [hs.code]
  cases hprobed : s.probed with
  | false =>
      rw [Weave.code_of_nothing (hs.plain hprobed), hs.lead, hprobed]
      exact (hfill.append (.of_none (List.forall_mem_nil _))).append fun insn hinsn index hindex =>
        hbody hinsn hindex
  | true =>
      have hlocals : s.body'.maxLocals.toNat =
          s.weave.body.maxLocals.toNat + s.weave.style.extraLocals.toNat := by
        rw [hs.maxLocals, extras, hprobed, if_pos rfl, s.weave.style.length_extras]
      intro insn hinsn index hindex
      rcases Weave.mem_code hinsn with hinsn | ⟨site, hinsn⟩ | ⟨placed, rfl⟩ | ⟨placed, -, rfl⟩ |
        ⟨i, drawn, old, hold, rfl, -⟩
      · rw [hs.lead, hprobed, if_pos rfl] at hinsn
        exact hfill.append (hlocals ▸ ProbeStyle.usesBelow_prologue hs.room) insn hinsn index hindex
      · rw [hlocals]
        exact ProbeStyle.usesBelow_item hs.room _ site insn hinsn index hindex
      · cases hindex
      · cases hindex
      · rw [Plan.localIndex?_divert] at hindex
        exact hbody hold hindex

/-! ## Operands -/

namespace Sheet

variable {style : ProbeStyle} {probed : Option (ScannedMethod × MethodSlots)} {fills : Bool}
  {body : Body}

/-- Rewritten code declares the operands that it gets to, if there is room for them. -/
theorem height_sheetOf_le {n : Nat} (hn : n ≤ body.maxStack.toNat) (hroom : body.maxStack ≤ 65531) :
    (sheetOf style probed fills body).height n ≤
      (sheetOf style probed fills body).body'.maxStack.toNat := by
  have hroom : body.maxStack.toNat ≤ 65531 := UInt16.le_iff_toNat_le.1 hroom
  have hdepth : (Probe.depth style.mode).toNat ≤ 4 := by cases style.mode <;> decide
  have hone : (1 : UInt16).toNat = 1 := rfl
  have hacquire : Counters.acquireDepth.toNat = 1 := rfl
  cases probed with
  | none =>
      cases fills with
      | false => simpa [height, sheetOf] using hn
      | true =>
          simp only [height, sheetOf, Counters.prependFill, UInt16.toNat_max, hone, if_true,
            Bool.false_eq_true, if_false]
          omega
  | some e =>
      have hprobed : (max (satAdd16 body.maxStack (Probe.depth style.mode))
          Counters.acquireDepth).toNat =
            max (body.maxStack.toNat + (Probe.depth style.mode).toNat) 1 := by
        rw [UInt16.toNat_max, toNat_satAdd16, hacquire, Nat.min_eq_left (by omega)]
      cases fills with
      | false =>
          simp only [height, sheetOf, SplitBody.fill, Body.ofParts, Body.split, hprobed, if_true,
            Bool.false_eq_true, if_false]
          omega
      | true =>
          simp only [height, sheetOf, SplitBody.fill, Body.ofParts, Body.split,
            Counters.prependFill, UInt16.toNat_max, hone, hprobed, if_true]
          omega

end Sheet

/-! ## Where the instructions stand -/

/-- The positions of the instructions of a body in rewritten code, in the order of the
instructions, which are those of the body once their targets are led home. -/
structure Body.Keeps (body body' : Body) (kept : List Nat) : Prop where
  ordered : kept.Pairwise (· < ·)
  code : kept.map (fun pos => body'.code[pos]?.map
    (Instruction.retarget (body'.home body.watermark))) = body.code.map some

theorem Sheet.keeps {s : Sheet} {slots : Nat} (hs : s.Good slots) :
    s.weave.body.Keeps s.body' s.positions where
  ordered := s.pairwise_positions
  code := by
    refine List.ext_getElem? fun i => ?_
    rw [positions, List.map_map, List.getElem?_map, List.getElem?_map]
    cases hi : s.weave.body.code[i]? with
    | none => simp [List.getElem?_eq_none_iff.1 hi]
    | some insn =>
        rw [List.getElem?_range (List.getElem?_eq_some_iff.1 hi).1]
        refine congrArg some ?_
        rw [Function.comp_apply, hs.code]
        exact Weave.retarget_main hs.valid hs.code (fun insn hinsn label hlabel =>
          hs.valid.drawn.below insn hinsn label (insn.targets_subset_labels hlabel)) hi

/-! ## Runs -/

namespace ClassFile

variable (cls : ClassFile)

/-- The code of the method at a place. -/
def body? (place : Nat) : Option Body :=
  cls.methods[place]?.bind Method.body

/-- Where the instructions of the method at a place stand. -/
def positions (place : Nat) : List Nat :=
  ((cls.body? place).map fun body => List.range body.code.length).getD []

/-- The number of local variables of the method at a place. -/
def localCount (place : Nat) : Nat :=
  ((cls.body? place).map fun body => body.maxLocals.toNat).getD 0

end ClassFile

/-- At these moments the frames of the method at a place have no more operands than a limit. -/
def Machine.StackWithin (trace : List Moment) (place limit : Nat) : Prop :=
  ∀ x ∈ trace, ∀ f, (place, f) ∈ x.frames → f.stack.length ≤ limit

/-- What the moments `trace'` of a rewritten class keep to while the class itself has the moments
`trace`, the instructions of its methods standing at the positions `kept`. -/
structure ClassFile.WithinLimits (cls cls' : ClassFile) (kept : Nat → List Nat)
    (trace trace' : List Moment) : Prop where
  /-- Each frame runs the code of its method. -/
  frames : ∀ x ∈ trace', x.places.length = x.thread.callers.length + 1 ∧
    ∀ e ∈ x.frames, cls'.body? e.1 = some e.2.body
  /-- The code uses the local variables that it declares. -/
  locals : ∀ x ∈ trace', ∀ e ∈ x.frames, UsesBelow e.2.body.maxLocals.toNat e.2.body.code
  /-- The instructions of the class meet the same operands and local variables. -/
  sights : trace'.filterMap (Moment.sight? kept cls.localCount) <+:
    trace.filterMap (Moment.sight? cls.positions cls.localCount)
  /-- The methods of the class keep to their new limits if they have kept to the old ones. -/
  stack : ∀ place body body', cls.body? place = some body → cls'.body? place = some body' →
    body.maxStack ≤ 65531 → StackWithin trace place body.maxStack.toNat →
    StackWithin trace' place body'.maxStack.toNat
  /-- So do the methods that were added. -/
  added : ∀ place body', cls.methods.length ≤ place → cls'.body? place = some body' →
    StackWithin trace' place body'.maxStack.toNat

namespace ClassFile

variable {cls : ClassFile} {style : ProbeStyle} {laidOut : List (ScannedMethod × MethodSlots)}
  {slots : Nat}

theorem sheets_eq (place : Nat) : (cls.pairing style laidOut slots).sheets place =
    (cls.body? place).map (cls.sheetAt style laidOut place) :=
  rfl

theorem positions_pairing : (cls.pairing style laidOut slots).positions = cls.positions := by
  funext place
  rw [Pairing.positions, sheets_eq, positions]
  cases cls.body? place <;> simp [body_sheetAt]

theorem localCount_pairing : (cls.pairing style laidOut slots).localCount = cls.localCount := by
  funext place
  rw [Pairing.localCount, sheets_eq, localCount]
  cases cls.body? place <;> simp [body_sheetAt]

variable (hcls : cls.Admissible) (h : cls.LaidOut laidOut)

include hcls h

/-- A method of the class runs its rewritten code. -/
theorem body?_withProbes {place : Nat} {body : Body} (hbody : cls.body? place = some body) :
    (cls.withProbes style laidOut).body? place =
      some (cls.sheetAt style laidOut place body).body' := by
  obtain ⟨method, hmethod, hbody⟩ := Option.bind_eq_some_iff.1 hbody
  have hlt := (List.getElem?_eq_some_iff.1 hmethod).1
  rw [body?, methods_withProbes h fun method hmethod hinitializer =>
    (hcls.initializer method hmethod hinitializer).2, List.getElem?_append_left
      (by rwa [List.length_mapIdx]), List.getElem?_mapIdx, hmethod, Option.map_some,
    Option.bind_some, counterpart, hbody, Option.map_some]

/-- The members that were added come after the methods of the class. -/
theorem body?_added (i : Nat) : (cls.withProbes style laidOut).body? (cls.methods.length + i) =
    ((cls.added style)[i]?).bind Method.body := by
  rw [body?, methods_withProbes h fun method hmethod hinitializer =>
    (hcls.initializer method hmethod hinitializer).2, List.getElem?_append_right
      (by rw [List.length_mapIdx]; exact Nat.le_add_right _ _), List.length_mapIdx,
    Nat.add_sub_cancel_left]

/-- A frame of an added member runs its code and keeps to its limits. -/
theorem within_of_own {place : Nat} {f : Frame}
    (hown : (cls.pairing style laidOut slots).Own place f) :
    (cls.withProbes style laidOut).body? place = some f.body ∧
      UsesBelow f.body.maxLocals.toNat f.body.code ∧ f.stack.length ≤ f.body.maxStack.toNat := by
  cases hown with
  | accessor hstrategy hbody hheight =>
      refine ⟨?_, ?_, ?_⟩
      · refine (body?_added hcls h 0).trans ?_
        have hstrategy : style.counters.strategy = .field := hstrategy
        rw [added, hstrategy, hbody]
        rfl
      · rw [hbody]
        exact .of_none (Counters.localIndex?_accessorBody _)
      · rw [hbody]
        exact hheight
  | initializer hstrategy hnone hbody hheight =>
      obtain ⟨hstack, hcode⟩ := Counters.maxStack_initializer hbody
      refine ⟨?_, ?_, ?_⟩
      · refine (body?_added hcls h 1).trans ?_
        have hstrategy : style.counters.strategy = .field := hstrategy
        have hplace : cls.place? Method.initializerName "()V" = none := place?_eq_none hnone
        rw [added, hstrategy, findIdx?_isInitializer hcls, hplace]
        exact hbody
      · rw [hcode]
        refine UsesBelow.append (.of_none (Counters.localIndex?_fill _)) (.of_none ?_)
        simp [Instruction.localIndex?]
      · rw [hstack]
        exact hheight

/-- A frame of a method of the class runs its rewritten code. -/
theorem within_of_sheet (hgood : (cls.pairing style laidOut slots).Good) {place : Nat} {f : Frame}
    {s : Sheet} (hsheet : (cls.pairing style laidOut slots).sheets place = some s)
    (hbody : f.body = s.body') :
    (cls.withProbes style laidOut).body? place = some f.body ∧
      UsesBelow f.body.maxLocals.toNat f.body.code := by
  obtain ⟨body, hsome, rfl⟩ := Option.map_eq_some_iff.1 (sheets_eq place ▸ hsheet)
  rw [hbody]
  exact ⟨body?_withProbes hcls h hsome, Sheet.usesBelow (hgood.sheet place _ hsheet)⟩

/-- Runs that show the same keep to the limits. -/
theorem withinLimits_of_shows {cut : Prop} {trace trace' : List Moment}
    (hgood : (cls.pairing style laidOut slots).Good)
    (hshows : (cls.pairing style laidOut slots).Shows cut trace trace') :
    cls.WithinLimits (cls.withProbes style laidOut) (cls.pairing style laidOut slots).kept
      trace trace' where
  frames x hx := by
    refine ⟨(hshows.backed x hx).length, fun e he => ?_⟩
    rcases (hshows.backed x hx).frames e.1 e.2 he with hown | ⟨s, hsheet, hbody, -⟩
    · exact (within_of_own hcls h hown).1
    · exact (within_of_sheet hcls h hgood hsheet hbody).1
  locals x hx e he := by
    rcases (hshows.backed x hx).frames e.1 e.2 he with hown | ⟨s, hsheet, hbody, -⟩
    · exact (within_of_own hcls h hown).2.1
    · exact (within_of_sheet hcls h hgood hsheet hbody).2
  sights := by
    have hsights := hshows.sights
    rwa [Pairing.sight?, Pairing.sight'?, positions_pairing, localCount_pairing] at hsights
  stack place body body' hbody hbody' hroom hwithin x hx f hf := by
    rcases (hshows.backed x hx).frames place f hf with
      hown | ⟨s, hsheet, hframe, y, hy, g, hg, hheight⟩
    · obtain ⟨hsome, -, hheight⟩ := within_of_own hcls h hown
      obtain rfl := Option.some.inj (hsome.symm.trans hbody')
      exact hheight
    · rw [sheets_eq, hbody, Option.map_some, Option.some.injEq] at hsheet
      obtain rfl := Option.some.inj ((body?_withProbes hcls h hbody).symm.trans hbody')
      subst hsheet
      exact Nat.le_trans hheight (Sheet.height_sheetOf_le (hwithin y hy g hg) hroom)
  added place body' hplace hbody' x hx f hf := by
    rcases (hshows.backed x hx).frames place f hf with hown | ⟨s, hsheet, -⟩
    · obtain ⟨hsome, -, hheight⟩ := within_of_own hcls h hown
      obtain rfl := Option.some.inj (hsome.symm.trans hbody')
      exact hheight
    · rw [hgood.outside place hplace] at hsheet
      cases hsheet

end ClassFile

/-- Instrumenting an admissible class in a new session, whatever the options and filters, leaves
room for the probes.  In runs of the class with probes each method keeps to its new limits, if it
has kept to the old ones without probes, and so do the members that were added.  The instructions
of the class meet the operands and local variables that they meet without probes, and none of them
is missing unless the run is cut short.  The class leaves room for the labels of windows
(`Body.Roomy`). -/
theorem Session.limits_of_probed {options : Options} {filters : List Filter}
    {cls cls' : ClassFile} {s' : Session} (hcls : cls.Admissible)
    (h : ({ options } : Session).instrument filters cls = (.probed cls', s')) :
    ∃ kept : Nat → List Nat,
      (∀ place body, cls.body? place = some body →
        ∃ body', cls'.body? place = some body' ∧ body.Keeps body' (kept place)) ∧
      ∀ (registry : Registry) (keeper keeper' budget : Nat) (calls : List Call),
        (∀ c ∈ calls, cls.Callable c) →
        let m : Machine := { Machine.start cls registry keeper with budget }
        let m' : Machine := { Machine.start cls' s'.registry keeper' with budget }
        cls.WithinLimits cls' kept (m.traceOf calls) (m'.traceOf calls) ∧
        (.error .stepLimit ∉ (m'.invokeAll calls).1 →
          (m'.traceOf calls).filterMap (Moment.sight? kept cls.localCount) =
            (m.traceOf calls).filterMap (Moment.sight? cls.positions cls.localCount)) := by
  obtain ⟨scanned, record, laidOut, meanings, hmade, hlines, rfl, rfl⟩ := exists_of_probed h
  have hgood := hmade.good hcls
  refine ⟨(cls.pairing (options.probeStyle cls) laidOut record.slotCount).kept, ?_, ?_⟩
  · intro place body hbody
    have hsheet : (cls.pairing (options.probeStyle cls) laidOut record.slotCount).sheets place =
        some (cls.sheetAt (options.probeStyle cls) laidOut place body) := by
      rw [ClassFile.sheets_eq, hbody, Option.map_some]
    have hkeeps := Sheet.keeps (hgood.sheet place _ hsheet)
    rw [ClassFile.body_sheetAt] at hkeeps
    refine ⟨_, ClassFile.body?_withProbes hcls hmade.methods hbody, ?_⟩
    rwa [Pairing.kept, hsheet, Option.map_some, Option.getD_some]
  · intro registry keeper keeper' budget calls hcalls m m'
    have hmachines :
        (cls.pairing (options.probeStyle cls) laidOut record.slotCount).Machines m m' :=
      { hmade.machines_register hlines registry keeper keeper' with budget := Nat.le_refl _ }
    have hshows := hgood.shows_traceOf hmachines hcalls
    refine ⟨ClassFile.withinLimits_of_shows hcls hmade.methods hgood hshows, fun hlimit => ?_⟩
    have hcomplete := hshows.complete hlimit
    rwa [Pairing.sight?, Pairing.sight'?, ClassFile.positions_pairing,
      ClassFile.localCount_pairing] at hcomplete

/-- The one method of the class has one operand at most, and five with probes. -/
theorem Session.limits_of_probed_sign :
    StackWithin ((Machine.start Sign.cls {} 0).traceOf Sign.calls) 0 1 ∧
    (Sign.probed.body? 0).map Body.maxStack = some 5 ∧
    StackWithin (Sign.machine.traceOf Sign.calls) 0 5 ∧
    (Sign.probed.body? 1).map Body.maxStack = some 2 ∧
    StackWithin (Sign.machine.traceOf Sign.calls) 1 2 := by
  have hall : ((Machine.start Sign.cls {} 0).traceOf Sign.calls).all
      (fun x => x.frames.all fun e => e.2.stack.length ≤ 1) = true := by
    with_unfolding_all rfl
  have hwithin : StackWithin ((Machine.start Sign.cls {} 0).traceOf Sign.calls) 0 1 := by
    intro x hx f hf
    exact of_decide_eq_true (List.all_eq_true.1 (List.all_eq_true.1 hall x hx) _ hf)
  obtain ⟨kept, -, hruns⟩ := limits_of_probed Sign.admissible Sign.instrument_cls
  obtain ⟨hlimits, -⟩ := hruns {} 0 1 Machine.stepLimit Sign.calls Sign.callable_calls
  have hprobed : (Sign.probed.body? 0).map Body.maxStack = some 5 := by with_unfolding_all rfl
  have hadded : (Sign.probed.body? 1).map Body.maxStack = some 2 := by with_unfolding_all rfl
  obtain ⟨body', hbody', hfive⟩ := Option.map_eq_some_iff.1 hprobed
  obtain ⟨accessor, haccessor, htwo⟩ := Option.map_eq_some_iff.1 hadded
  have hmethod := hlimits.stack 0 Sign.body body' rfl hbody' (by decide) hwithin
  have hown := hlimits.added 1 accessor (Nat.le_refl _) haccessor
  rw [hfive] at hmethod
  rw [htwo] at hown
  exact ⟨hwithin, hprobed, hmethod, hadded, hown⟩

end BytecodeCoverage
