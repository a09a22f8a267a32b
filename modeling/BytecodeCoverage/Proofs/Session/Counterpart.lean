import BytecodeCoverage.Proofs.Probe.Pairing
import BytecodeCoverage.Proofs.Session.Scanned

/-!
# The counterpart of a class

The methods of an instrumented class are those of the class, in their places, and after them the
members that were added.  A method with code has a sheet that says what has become of the code.

**Main definitions.**
* `sheetOf`: what becomes of a body.
* `ClassFile.counterpart`: what becomes of a method.
* `ClassFile.added`, `Counters.ownMethods`: the methods that are added.

**Results.**
* `ClassFile.methods_withProbes`, `ClassFile.methods_withProbes_eq`: the methods of an instrumented
  class.
* `Sheet.good_sheetOf`: a sheet is as it should be.
-/

namespace BytecodeCoverage

/-! ## Looking methods up -/

namespace ClassFile

variable {cls : ClassFile} {name descriptor : String}

/-- The method with a name and descriptor is the one at their place. -/
theorem method?_eq_place? (cls : ClassFile) (name descriptor : String) :
    cls.method? name descriptor = (cls.place? name descriptor).bind (cls.methods[·]?) :=
  List.find?_eq_bind_findIdx?_getElem?

/-- At a place there is a method with the name and descriptor that were looked up. -/
theorem exists_of_place? {place : Nat} (h : cls.place? name descriptor = some place) :
    ∃ method, cls.methods[place]? = some method ∧ cls.method? name descriptor = some method ∧
      method.name = name ∧ method.descriptor = descriptor := by
  obtain ⟨hlt, hfound, -⟩ := List.findIdx?_eq_some_iff_getElem.1 h
  simp only [Bool.and_eq_true, beq_iff_eq] at hfound
  refine ⟨cls.methods[place], List.getElem?_eq_getElem hlt, ?_, hfound⟩
  rw [method?_eq_place?, h, Option.bind_some, List.getElem?_eq_getElem hlt]

/-- Methods that keep their names and descriptors keep their places. -/
theorem findIdx?_mapIdx {α β : Type} (f : Nat → α → β) (p : β → Bool) (q : α → Bool)
    (h : ∀ i a, p (f i a) = q a) (l : List α) : (l.mapIdx f).findIdx? p = l.findIdx? q := by
  induction l generalizing f with
  | nil => rfl
  | cons a rest ih =>
      simp only [List.mapIdx_cons, List.findIdx?_cons, h]
      rw [ih (fun i => f (i + 1)) (fun i a => h (i + 1) a)]

end ClassFile

/-! ## Sheets -/

/-- A body that knows nothing of counters and leaves room for the local variables of the probes. -/
structure Body.Neutral (body : Body) : Prop where
  /-- The label that is drawn next is the one that follows from the parts. -/
  parts : body = .ofParts body.code body.tryRanges body.maxStack body.maxLocals
  unaware : ∀ insn ∈ body.code, insn.Unaware
  locals : ∀ insn ∈ body.code, ∀ index, insn.localIndex? = some index → index < body.maxLocals
  room : body.maxLocals ≤ 65533

theorem Body.Neutral.drawn {body : Body} (h : body.Neutral) (hroom : body.Roomy) : body.Drawn :=
  drawn_ofParts h.parts.symm hroom

/-- What becomes of a body: it may get probes, and it may fill the field first. -/
def sheetOf (style : ProbeStyle) (probed : Option (ScannedMethod × MethodSlots)) (fills : Bool)
    (body : Body) : Sheet :=
  let first := if fills then style.counters.fill else []
  let finish (b : Body) := if fills then style.counters.prependFill b else b
  match probed with
  | some (m, slots) =>
      { weave :=
          { body, plan := .ofScan m.scan, slots, style,
            lead := first ++ style.prologue body.maxLocals }
        body' := finish ((body.split m.scan).fill slots style)
        fills
        probed := true }
  | none =>
      { weave := { body, plan := .nothing, slots := {}, style, lead := first }
        body' := finish body
        fills
        probed := false }

namespace ClassFile

/-- What is probed in the method at a place. -/
def probedAt (laidOut : List (ScannedMethod × MethodSlots)) (place : Nat) :
    Option (ScannedMethod × MethodSlots) :=
  laidOut.find? fun e => e.1.index == place

/-- Whether the method at a place fills the field first. -/
def fillsAt (cls : ClassFile) (style : ProbeStyle) (place : Nat) : Bool :=
  decide (style.counters.strategy = .field ∧
    cls.methods.findIdx? Method.isInitializer = some place)

/-- What becomes of the code of the method at a place. -/
def sheetAt (cls : ClassFile) (style : ProbeStyle) (laidOut : List (ScannedMethod × MethodSlots))
    (place : Nat) : Body → Sheet :=
  sheetOf style (probedAt laidOut place) (cls.fillsAt style place)

/-- The method at a place with its probes. -/
def probedMethod (style : ProbeStyle) (laidOut : List (ScannedMethod × MethodSlots))
    (place : Nat) (method : Method) : Method :=
  { method with
    body := method.body.map fun body =>
      (sheetOf style (probedAt laidOut place) false body).body' }

/-- What becomes of the method at a place. -/
def counterpart (cls : ClassFile) (style : ProbeStyle)
    (laidOut : List (ScannedMethod × MethodSlots)) (place : Nat) (method : Method) : Method :=
  { method with body := method.body.map fun body => (cls.sheetAt style laidOut place body).body' }

/-- The methods that are added. -/
def added (cls : ClassFile) (style : ProbeStyle) : List Method :=
  match style.counters.strategy with
  | .field =>
      style.counters.accessor ::
        if (cls.methods.findIdx? Method.isInitializer).isSome then []
        else [style.counters.initializer]
  | .localVar | .constant => []

variable {cls : ClassFile} {style : ProbeStyle} {laidOut : List (ScannedMethod × MethodSlots)}

/-- The method at a place after some methods have been given probes. -/
theorem getElem?_probed (hdistinct : (laidOut.map fun e => e.1.index).Nodup)
    (methods : List Method) (place : Nat) :
    (laidOut.foldl (probeMethod style) methods)[place]? =
      methods[place]?.map fun method =>
        match probedAt laidOut place with
        | some (m, slots) => { method with body := some ((m.body.split m.scan).fill slots style) }
        | none => method := by
  induction laidOut generalizing methods with
  | nil => simp [probedAt]
  | cons e rest ih =>
      rw [List.map_cons, List.nodup_cons] at hdistinct
      rw [List.foldl_cons, ih hdistinct.2, probeMethod, probedAt, probedAt, List.find?_cons,
        List.getElem?_modify]
      by_cases heq : e.1.index = place
      · have hrest : (rest.find? fun e => e.1.index == place) = none := by
          rw [List.find?_eq_none]
          rintro other hother hplace
          exact hdistinct.1 (List.mem_map.2 ⟨other, hother, by rw [heq]; simpa using hplace⟩)
        simp [heq, hrest, Function.comp_def]
      · have hbeq : (e.1.index == place) = false := by simpa using heq
        simp [heq, hbeq]

end ClassFile

namespace Counters

/-- The first class initializer is the one that is extended, if it has code. -/
theorem extendInitializer?_eq (c : Counters) (methods : List Method) :
    c.extendInitializer? methods =
      if ((methods.find? Method.isInitializer).bind Method.body).isSome then
        (methods.findIdx? Method.isInitializer).map fun place =>
          methods.modify place fun method => { method with body := method.body.map c.prependFill }
      else none := by
  induction methods with
  | nil => rfl
  | cons method rest ih =>
      rw [extendInitializer?, List.findIdx?_cons, List.find?_cons]
      cases hinitializer : method.isInitializer with
      | true => cases hbody : method.body <;> simp [hbody]
      | false =>
          simp only [Bool.false_eq_true, if_false, ih]
          split <;> simp [Function.comp_def]

/-- The methods that are added to a class with the given methods. -/
def ownMethods (c : Counters) (methods : List Method) : List Method :=
  match c.strategy with
  | .field =>
      c.accessor ::
        if ((methods.find? Method.isInitializer).bind Method.body).isSome then []
        else [c.initializer]
  | .localVar | .constant => []

end Counters

namespace ClassFile

variable {cls : ClassFile} {style : ProbeStyle} {laidOut : List (ScannedMethod × MethodSlots)}

/-- What is laid out are methods of the class, each once. -/
structure LaidOut (cls : ClassFile) (laidOut : List (ScannedMethod × MethodSlots)) : Prop where
  method : ∀ e ∈ laidOut, e.1.Of cls.methods e.1.index
  distinct : (laidOut.map fun e => e.1.index).Nodup

/-- What is probed in the method at a place comes from its body. -/
theorem LaidOut.of_probedAt (h : cls.LaidOut laidOut) {place : Nat} {method : Method}
    {m : ScannedMethod} {slots : MethodSlots} (hmethod : cls.methods[place]? = some method)
    (hprobed : probedAt laidOut place = some (m, slots)) :
    method.body = some m.body ∧ m.index = place ∧ (m, slots) ∈ laidOut := by
  have hmem := List.mem_of_find?_eq_some hprobed
  have hindex : m.index = place := by simpa using List.find?_some hprobed
  obtain ⟨other, hother, hbody⟩ := (h.method _ hmem).method
  rw [show (m, slots).1.index = place from hindex, hmethod, Option.some.injEq] at hother
  exact ⟨hother ▸ hbody, hindex, hmem⟩

/-- Before the field is filled, the methods differ in their probes only. -/
theorem probed_eq_mapIdx (h : cls.LaidOut laidOut) :
    laidOut.foldl (probeMethod style) cls.methods =
      cls.methods.mapIdx (probedMethod style laidOut) := by
  refine List.ext_getElem? fun place => ?_
  rw [getElem?_probed h.distinct, List.getElem?_mapIdx]
  cases hmethod : cls.methods[place]? with
  | none => rfl
  | some method =>
      cases hprobed : probedAt laidOut place with
      | none => simp [probedMethod, sheetOf, hprobed]
      | some e =>
          obtain ⟨m, slots⟩ := e
          simp [probedMethod, sheetOf, hprobed, (h.of_probedAt hmethod hprobed).1]

/-- Filling comes on top of the probes. -/
theorem counterpart_eq (place : Nat) (method : Method) :
    cls.counterpart style laidOut place method =
      if cls.fillsAt style place then
        { probedMethod style laidOut place method with
          body := (probedMethod style laidOut place method).body.map style.counters.prependFill }
      else probedMethod style laidOut place method := by
  unfold counterpart sheetAt probedMethod sheetOf
  cases cls.fillsAt style place <;> cases probedAt laidOut place <;>
    simp [Function.comp_def]

/-- Whether a class initializer is met does not depend on the probes. -/
theorem findIdx?_probed (style : ProbeStyle) (laidOut : List (ScannedMethod × MethodSlots))
    (methods : List Method) :
    (methods.mapIdx (probedMethod style laidOut)).findIdx? Method.isInitializer =
      methods.findIdx? Method.isInitializer :=
  findIdx?_mapIdx (probedMethod style laidOut) Method.isInitializer Method.isInitializer
    (fun _ _ => rfl) methods

/-- Filling changes nothing elsewhere, nor where there is no code. -/
theorem counterpart_of_unfilled {place : Nat} {method : Method}
    (h : cls.fillsAt style place = true → method.body = none) :
    cls.counterpart style laidOut place method = probedMethod style laidOut place method := by
  rw [counterpart_eq]
  split
  · rename_i hfills
    simp [probedMethod, h hfills]
  · rfl

/-- Whether the first class initializer has code does not depend on the probes. -/
theorem isSome_initializer_probed (methods : List Method) :
    (((methods.mapIdx (probedMethod style laidOut)).find? Method.isInitializer).bind
        Method.body).isSome =
      ((methods.find? Method.isInitializer).bind Method.body).isSome := by
  rw [List.find?_eq_bind_findIdx?_getElem?, findIdx?_probed, List.find?_eq_bind_findIdx?_getElem?]
  cases methods.findIdx? Method.isInitializer with
  | none => rfl
  | some first =>
      rw [Option.bind_some, Option.bind_some, List.getElem?_mapIdx]
      cases methods[first]? <;> simp [probedMethod]

/-- The methods of an instrumented class: those of the class, and the ones that the counters add. -/
theorem methods_withProbes_eq (h : cls.LaidOut laidOut) :
    (cls.withProbes style laidOut).methods =
      cls.methods.mapIdx (cls.counterpart style laidOut) ++
        style.counters.ownMethods cls.methods := by
  have hplain : (∀ place method, cls.methods[place]? = some method →
        cls.fillsAt style place = true → method.body = none) →
      cls.methods.mapIdx (probedMethod style laidOut) =
        cls.methods.mapIdx (cls.counterpart style laidOut) := by
    intro hunfilled
    refine List.ext_getElem? fun place => ?_
    rw [List.getElem?_mapIdx, List.getElem?_mapIdx]
    cases hmethod : cls.methods[place]? with
    | none => rfl
    | some method =>
        exact congrArg some (counterpart_of_unfilled (hunfilled place method hmethod)).symm
  unfold withProbes Counters.prepare Counters.ownMethods
  rw [probed_eq_mapIdx h]
  cases hstrategy : style.counters.strategy with
  | localVar | constant =>
      rw [hplain fun place method _ hfills => by simp [fillsAt, hstrategy] at hfills, List.append_nil]
  | field =>
      have haccessor : [style.counters.accessor].findIdx? Method.isInitializer = none := rfl
      have haccessor' : [style.counters.accessor].find? Method.isInitializer = none := rfl
      dsimp only
      rw [Counters.extendInitializer?_eq, List.findIdx?_append, List.find?_append, haccessor,
        haccessor', findIdx?_probed, Option.map_none, Option.or_none, Option.or_none,
        isSome_initializer_probed]
      cases hcode : ((cls.methods.find? Method.isInitializer).bind Method.body).isSome with
      | false =>
          rw [hplain]
          · simp
          · intro place method hmethod hfills
            rw [fillsAt, decide_eq_true_eq] at hfills
            rw [List.find?_eq_bind_findIdx?_getElem?, hfills.2, Option.bind_some, hmethod,
              Option.bind_some] at hcode
            exact Option.isNone_iff_eq_none.1 (Option.isSome_eq_false_iff.1 hcode)
      | true =>
          obtain ⟨first, hfirst⟩ : ∃ first, cls.methods.findIdx? Method.isInitializer = some first := by
            rw [List.find?_eq_bind_findIdx?_getElem?] at hcode
            cases hfirst : cls.methods.findIdx? Method.isInitializer with
            | none => simp [hfirst] at hcode
            | some first => exact ⟨first, rfl⟩
          rw [hfirst, Option.map_some, if_pos rfl, if_pos rfl, Option.getD_some]
          refine List.ext_getElem? fun place => ?_
          have hlt : first < cls.methods.length :=
            (List.findIdx?_eq_some_iff_getElem.1 hfirst).1
          rw [List.getElem?_modify, List.getElem?_append, List.getElem?_append,
            List.length_mapIdx, List.length_mapIdx, List.getElem?_mapIdx, List.getElem?_mapIdx]
          by_cases hplace : place < cls.methods.length
          · rw [if_pos hplace, if_pos hplace, List.getElem?_eq_getElem hplace]
            by_cases heq : first = place
            · simp [counterpart_eq, fillsAt, hstrategy, hfirst, heq]
            · simp [counterpart_eq, fillsAt, hstrategy, hfirst, heq]
          · have hne : first ≠ place := by omega
            rw [if_neg hplace, if_neg hplace]
            simp [hne]

/-- The methods of an instrumented class whose initializers have code: those of the class, and what
is added. -/
theorem methods_withProbes (h : cls.LaidOut laidOut)
    (hbody : ∀ method ∈ cls.methods, method.isInitializer = true → method.body.isSome) :
    (cls.withProbes style laidOut).methods =
      cls.methods.mapIdx (cls.counterpart style laidOut) ++ cls.added style := by
  have hcode : ((cls.methods.find? Method.isInitializer).bind Method.body).isSome =
      (cls.methods.findIdx? Method.isInitializer).isSome := by
    rw [List.findIdx?_isSome, ← List.isSome_find?]
    cases hfirst : cls.methods.find? Method.isInitializer with
    | none => rfl
    | some method =>
        exact hbody method (List.mem_of_find?_eq_some hfirst) (List.find?_some hfirst)
  rw [methods_withProbes_eq h, Counters.ownMethods, added, hcode]

end ClassFile

/-! ## What sheets say -/

namespace Plan

/-- A plan that probes nothing diverts nothing. -/
theorem divertAll_nothing (index : Nat) (fresh : UInt32) (code : List Instruction) :
    nothing.divertAll index fresh code = (code.map fun insn => { insn }, []) := by
  induction code generalizing index with
  | nil => rfl
  | cons insn rest ih =>
      have hdivert : nothing.divert index fresh insn = ({ insn }, []) := by
        cases insn <;> rfl
      simp [divertAll, hdivert, ih]

end Plan

namespace Weave

variable {v : Weave}

theorem code_eq_writeOut :
    v.code = v.lead ++ v.emit
      (Diverted.writeOut v.windows true (v.plan.divertAll 0 v.body.nextLabel v.body.code).1) := by
  rw [code, chunks, Diverted.writeOut_eq_chunks, emit, ProbeStyle.emit, List.flatMap_assoc]
  rfl

/-- Code that gets no probes stays as it is. -/
theorem code_of_nothing (h : v.plan = .nothing) : v.code = v.lead ++ v.body.code := by
  have hplain : ∀ (reachable : Bool) (code : List Instruction),
      v.emit (Diverted.writeOut [] reachable (code.map fun insn => { insn })) = code := by
    intro reachable code
    induction code generalizing reachable with
    | nil => rfl
    | cons insn rest ih =>
        cases insn <;> exact congrArg (_ :: ·) (ih _)
  rw [code_eq_writeOut, windows, h, Plan.divertAll_nothing, hplain]

theorem windows_of_nothing (h : v.plan = .nothing) : v.windows = [] := by
  rw [windows, h, Plan.divertAll_nothing]

end Weave

namespace ProbeStyle

variable (style : ProbeStyle)

theorem placedIn_prologue (array : UInt16) : Body.placedIn (style.prologue array) = [] := by
  unfold prologue Counters.acquire
  cases style.counters.strategy <;> cases style.counters.mode <;> cases style.traced <;> rfl

end ProbeStyle

namespace Sheet

variable {style : ProbeStyle} {probed : Option (ScannedMethod × MethodSlots)} {fills : Bool}
  {body : Body}

/-- The code of a sheet is woven. -/
theorem code_sheetOf : (sheetOf style probed fills body).body'.code =
    (sheetOf style probed fills body).weave.code := by
  cases probed with
  | none =>
      have hplain : (sheetOf style none fills body).weave.plan = .nothing := rfl
      rw [Weave.code_of_nothing hplain]
      cases fills <;> rfl
  | some e =>
      rw [Weave.code_eq_writeOut]
      cases fills
      · rfl
      · exact (List.append_assoc _ _ _).symm

theorem valid_sheetOf (hdrawn : body.Drawn) (hsound : probed.isSome → body.Sound) :
    (sheetOf style probed fills body).weave.Valid := by
  have hfill : Body.placedIn (if fills then style.counters.fill else []) = [] := by
    cases fills <;> rfl
  cases probed with
  | none =>
      have hplain : (sheetOf style none fills body).weave.plan = .nothing := rfl
      exact ⟨hdrawn, hfill, fun h => absurd (Weave.windows_of_nothing hplain) h⟩
  | some e =>
      refine ⟨hdrawn, ?_, fun _ => hsound rfl⟩
      simp only [sheetOf]
      rw [Body.placedIn_append, hfill, style.placedIn_prologue]
      rfl

/-- A sheet is as it should be. -/
theorem good_sheetOf {slots : Nat} (hbody : body.Neutral) (hdrawn : body.Drawn)
    (hsound : probed.isSome → body.Sound)
    (hslot : ∀ e ∈ probed, ∀ site slot, e.2.slot? site = some slot → slot < slots) :
    (sheetOf style probed fills body).Good slots := by
  have hroom : body.maxLocals.toNat ≤ 65533 := UInt16.le_iff_toNat_le.1 hbody.room
  have hlocals : ∀ insn ∈ body.code, ∀ index, insn.localIndex? = some index →
      index.toNat < body.maxLocals.toNat :=
    fun insn hinsn index hindex => UInt16.lt_iff_toNat_lt.1 (hbody.locals insn hinsn index hindex)
  have hvalid : (sheetOf style probed fills body).weave.Valid := valid_sheetOf hdrawn hsound
  cases probed with
  | none =>
      refine ⟨code_sheetOf, (List.append_nil _).symm, hvalid, ?_, hroom, hbody.unaware, hlocals,
        ?_, fun _ => rfl⟩
      · cases fills <;> rfl
      · intro site slot hsite
        cases site <;> cases hsite
  | some e =>
      obtain ⟨m, methodSlots⟩ := e
      refine ⟨code_sheetOf, rfl, hvalid, ?_, hroom, hbody.unaware, hlocals, hslot _ rfl, nofun⟩
      have hextra : style.extraLocals.toNat ≤ 2 := by
        unfold ProbeStyle.extraLocals
        split <;> decide
      have hsum : (body.maxLocals + style.extraLocals).toNat =
          body.maxLocals.toNat + style.extras.length := by
        rw [style.length_extras, UInt16.toNat_add, Nat.mod_eq_of_lt (by omega)]
      cases fills <;> exact hsum

end Sheet

end BytecodeCoverage
