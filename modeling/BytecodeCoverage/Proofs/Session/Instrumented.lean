import BytecodeCoverage.Proofs.Probe.Machines
import BytecodeCoverage.Proofs.Session.Counterpart
import BytecodeCoverage.Proofs.SortedMap

/-!
# Instrumented classes

An admissible class and what a session makes of it form a good pairing.

**Main definitions.**
* `ClassFile.Neutral`: classes that know nothing of counters.
* `ClassFile.Admissible`: classes that instrumenting does not change in any way that matters.
* `ClassFile.pairing`: the class and its counterpart.
* `ClassFile.Made`, `Session.Gives`: what instrumenting a class consists of, and what it gives.

**Results.**
* `ClassFile.good_pairing`: the pairing is good.
* `Session.gives_instrument`: there are four things that instrumenting a class can give.
* `ClassFile.Made.invokeAll_start`: calls on new machines of the class and its counterpart.
-/

namespace BytecodeCoverage

open Machine

/-- A class whose code knows nothing of counters, with room for parameters and probes. -/
structure ClassFile.Neutral (cls : ClassFile) : Prop where
  notOwner : cls.name ≠ Entry.owner
  body : ∀ method ∈ cls.methods, ∀ body ∈ method.body, body.Neutral
  params : ∀ method ∈ cls.methods, ∀ body ∈ method.body, ∀ d, method.parsedDescriptor = .ok d →
    d.params.length ≤ body.maxLocals.toNat
  initializer : ∀ method ∈ cls.methods, method.isInitializer = true →
    method.descriptor = "()V" ∧ method.body.isSome

/-- Such a class with room for the labels of windows. Without room, a label that is drawn for a
window may be one of the code. -/
structure ClassFile.Admissible (cls : ClassFile) : Prop extends cls.Neutral where
  labels : ∀ method ∈ cls.methods, ∀ body ∈ method.body, body.Roomy

namespace ClassFile

variable {cls : ClassFile} {style : ProbeStyle} {laidOut : List (ScannedMethod × MethodSlots)}
  {name descriptor : String}

/-! ## Looking methods up in the counterpart -/

theorem method?_withProbes (hcls : cls.Admissible) (h : cls.LaidOut laidOut)
    (name descriptor : String) :
    (cls.withProbes style laidOut).method? name descriptor =
      ((cls.place? name descriptor).bind fun place =>
        cls.methods[place]?.map (cls.counterpart style laidOut place)).or
      ((cls.added style).find? fun m => m.name == name && m.descriptor == descriptor) := by
  rw [method?, methods_withProbes h fun method hmethod hinitializer =>
    (hcls.initializer method hmethod hinitializer).2, List.find?_append,
    List.find?_eq_bind_findIdx?_getElem?,
    findIdx?_mapIdx _ _ (fun m => m.name == name && m.descriptor == descriptor) fun _ _ => rfl]
  simp only [List.getElem?_mapIdx, place?]

/-- The methods keep their places, and the ones that are added come after them. -/
theorem place?_withProbes (hcls : cls.Admissible) (h : cls.LaidOut laidOut)
    (name descriptor : String) :
    (cls.withProbes style laidOut).place? name descriptor =
      (cls.place? name descriptor).or
        (((cls.added style).findIdx? fun m => m.name == name && m.descriptor == descriptor).map
          (· + cls.methods.length)) := by
  rw [place?, methods_withProbes h fun method hmethod hinitializer =>
    (hcls.initializer method hmethod hinitializer).2, List.findIdx?_append,
    findIdx?_mapIdx _ _ (fun m => m.name == name && m.descriptor == descriptor) fun _ _ => rfl,
    List.length_mapIdx]
  rfl

variable (style) in
/-- A method of the class has its counterpart at the same place. -/
theorem method?_of_place? (hcls : cls.Admissible) (h : cls.LaidOut laidOut) {place : Nat}
    (hplace : cls.place? name descriptor = some place) :
    ∃ method, cls.methods[place]? = some method ∧ method ∈ cls.methods ∧
      cls.method? name descriptor = some method ∧
      method.name = name ∧ method.descriptor = descriptor ∧
      (cls.withProbes style laidOut).method? name descriptor =
        some (cls.counterpart style laidOut place method) := by
  obtain ⟨method, hmethod, hfound, hname, hdescriptor⟩ := exists_of_place? hplace
  refine ⟨method, hmethod, List.mem_of_getElem? hmethod, hfound, hname, hdescriptor, ?_⟩
  rw [method?_withProbes hcls h, hplace, Option.bind_some, hmethod]
  rfl

/-- Other methods are found only if they were added. -/
theorem method?_of_no_place (hcls : cls.Admissible) (h : cls.LaidOut laidOut)
    (hplace : cls.place? name descriptor = none) :
    (cls.withProbes style laidOut).method? name descriptor =
      (cls.added style).find? fun m => m.name == name && m.descriptor == descriptor := by
  rw [method?_withProbes hcls h, hplace]
  rfl

theorem method?_eq_none (hplace : cls.place? name descriptor = none) :
    cls.method? name descriptor = none := by
  rw [method?_eq_place?, hplace]
  rfl

/-- A method that is not found has no place. -/
theorem place?_eq_none (hnone : cls.method? name descriptor = none) :
    cls.place? name descriptor = none := by
  rw [method?_eq_place?] at hnone
  cases hplace : cls.place? name descriptor with
  | none => rfl
  | some place =>
      obtain ⟨method, hmethod, -⟩ := exists_of_place? hplace
      rw [hplace, Option.bind_some, hmethod] at hnone
      cases hnone

/-- A class that is not instrumented has no method that fills the field. -/
theorem place?_accessor (hplain : cls.isInstrumented = false) (descriptor : String) :
    cls.place? Entry.accessor descriptor = none := by
  rw [place?, List.findIdx?_eq_none_iff]
  intro m hm
  simp only [isInstrumented, Bool.or_eq_false_iff, List.any_eq_false] at hplain
  have := hplain.2 m hm
  simp only [Bool.not_eq_true] at this
  rw [this, Bool.false_and]

/-- The members that are added have names of their own. -/
theorem name_of_mem_added {m : Method} (h : m ∈ cls.added style) :
    m.name = Entry.accessor ∨ m.name = Method.initializerName := by
  unfold added at h
  split at h
  · rcases List.mem_cons.1 h with rfl | h
    · exact .inl rfl
    · split at h
      · cases h
      · obtain rfl := List.mem_singleton.1 h
        exact .inr rfl
  · cases h
  · cases h

/-- The first class initializer is the one that is looked up. -/
theorem findIdx?_isInitializer (hcls : cls.Admissible) :
    cls.methods.findIdx? Method.isInitializer = cls.place? Method.initializerName "()V" := by
  have hagree : ∀ method ∈ cls.methods, method.isInitializer =
      (method.name == Method.initializerName && method.descriptor == "()V") := by
    intro method hmethod
    cases hinitializer : method.isInitializer with
    | false =>
        rw [Method.isInitializer] at hinitializer
        rw [hinitializer, Bool.false_and]
    | true =>
        have hdescriptor := (hcls.initializer method hmethod hinitializer).1
        rw [Method.isInitializer] at hinitializer
        rw [hinitializer, hdescriptor]
        rfl
  rw [place?]
  generalize cls.methods = methods at hagree
  induction methods with
  | nil => rfl
  | cons method rest ih =>
      rw [List.findIdx?_cons, List.findIdx?_cons, hagree method List.mem_cons_self,
        ih fun other hother => hagree other (List.mem_cons_of_mem _ hother)]

/-! ## The pairing -/

/-- The class and its counterpart. -/
def pairing (cls : ClassFile) (style : ProbeStyle)
    (laidOut : List (ScannedMethod × MethodSlots)) (slots : Nat) : Pairing where
  cls
  cls' := cls.withProbes style laidOut
  style
  slots
  sheets place := (cls.methods[place]?.bind Method.body).map (cls.sheetAt style laidOut place)

variable {slots : Nat}

/-- A method with code has its sheet. -/
theorem sheets_pairing {place : Nat} {method : Method} {body : Body}
    (hmethod : cls.methods[place]? = some method) (hbody : method.body = some body) :
    (cls.pairing style laidOut slots).sheets place =
      some (cls.sheetAt style laidOut place body) := by
  simp only [pairing, hmethod, Option.bind_some, hbody, Option.map_some]

theorem exists_of_sheets {place : Nat} {s : Sheet}
    (h : (cls.pairing style laidOut slots).sheets place = some s) :
    ∃ method body, cls.methods[place]? = some method ∧ method.body = some body ∧
      s = cls.sheetAt style laidOut place body := by
  obtain ⟨body, hbody, rfl⟩ := Option.map_eq_some_iff.1 h
  obtain ⟨method, hmethod, hbody⟩ := Option.bind_eq_some_iff.1 hbody
  exact ⟨method, body, hmethod, hbody, rfl⟩

theorem body_sheetAt (place : Nat) (body : Body) :
    (cls.sheetAt style laidOut place body).weave.body = body := by
  unfold sheetAt sheetOf
  cases probedAt laidOut place <;> rfl

theorem style_sheetAt (place : Nat) (body : Body) :
    (cls.sheetAt style laidOut place body).weave.style = style := by
  unfold sheetAt sheetOf
  cases probedAt laidOut place <;> rfl

theorem fills_sheetAt (place : Nat) (body : Body) :
    (cls.sheetAt style laidOut place body).fills = cls.fillsAt style place := by
  unfold sheetAt sheetOf
  cases probedAt laidOut place <;> rfl

section Good

variable (hcls : cls.Admissible) (h : cls.LaidOut laidOut)

include h in
/-- Every sheet is as it should be. -/
theorem LaidOut.good_sheetAt (hcls : cls.Admissible)
    (hslots : ∀ e ∈ laidOut, ∀ site slot, e.2.slot? site = some slot → slot < slots) {place : Nat}
    {method : Method} {body : Body} (hmethod : cls.methods[place]? = some method)
    (hbody : method.body = some body) :
    (cls.sheetAt style laidOut place body).Good slots := by
  have hmem := List.mem_of_getElem? hmethod
  have hneutral := hcls.body method hmem body hbody
  refine Sheet.good_sheetOf hneutral (hneutral.drawn (hcls.labels method hmem body hbody)) ?_ ?_
  · intro hprobed
    obtain ⟨⟨m, methodSlots⟩, he⟩ := Option.isSome_iff_exists.1 hprobed
    obtain ⟨hsame, -, hlaid⟩ := h.of_probedAt hmethod he
    rw [hbody, Option.some.injEq] at hsame
    exact hsame ▸ (h.method _ hlaid).sound
  · intro e he
    exact hslots e (List.mem_of_find?_eq_some he)

include hcls h

variable (style slots) in
/-- A method that is found in the class has code on both sides, or on none. -/
theorem code_of_place? {place : Nat} (hplace : cls.place? name descriptor = some place) :
    ((cls.method? name descriptor).bind Method.body = none ∧
      ((cls.withProbes style laidOut).method? name descriptor).bind Method.body = none) ∨
    ∃ body, (cls.pairing style laidOut slots).sheets place =
        some (cls.sheetAt style laidOut place body) ∧
      (cls.method? name descriptor).bind Method.body =
        some (cls.sheetAt style laidOut place body).weave.body ∧
      ((cls.withProbes style laidOut).method? name descriptor).bind Method.body =
        some (cls.sheetAt style laidOut place body).body' := by
  obtain ⟨method, hmethod, -, hfound, -, -, hfound'⟩ := method?_of_place? style hcls h hplace
  rw [hfound, hfound', Option.bind_some, Option.bind_some, counterpart]
  cases hbody : method.body with
  | none => exact .inl ⟨rfl, rfl⟩
  | some body => exact .inr ⟨body, sheets_pairing hmethod hbody, by rw [body_sheetAt], rfl⟩

/-- A method that is not found in the class is found in its counterpart only if it was added. -/
theorem code_of_no_place (hplace : cls.place? name descriptor = none)
    (hnames : name ≠ Entry.accessor ∧ name ≠ Method.initializerName) :
    (cls.method? name descriptor).bind Method.body = none ∧
      ((cls.withProbes style laidOut).method? name descriptor).bind Method.body = none := by
  have hadded : ((cls.added style).find? fun m =>
      m.name == name && m.descriptor == descriptor) = none := by
    rw [List.find?_eq_none]
    intro m hm hfound
    simp only [Bool.and_eq_true, beq_iff_eq] at hfound
    rcases name_of_mem_added hm with hm | hm
    · exact hnames.1 (hfound.1 ▸ hm)
    · exact hnames.2 (hfound.1 ▸ hm)
  rw [method?_eq_none hplace, method?_of_no_place hcls h hplace, hadded]
  exact ⟨rfl, rfl⟩

/-- Only the class initializer fills the field. -/
theorem initializer_of_fills {place : Nat} {s : Sheet}
    (hplace : cls.place? name descriptor = some place)
    (hs : (cls.pairing style laidOut slots).sheets place = some s) (hfills : s.fills = true) :
    name = Method.initializerName ∧ style.counters.strategy = .field := by
  obtain ⟨method, hmethod, -, -, hname, -, -⟩ := method?_of_place? style hcls h hplace
  obtain ⟨_, body, -, -, rfl⟩ := exists_of_sheets hs
  rw [fills_sheetAt, fillsAt, decide_eq_true_eq] at hfills
  obtain ⟨hlt, hinitializer, -⟩ := List.findIdx?_eq_some_iff_getElem.1 hfills.2
  rw [List.getElem?_eq_getElem hlt, Option.some.injEq] at hmethod
  rw [hmethod, Method.isInitializer, beq_iff_eq, hname] at hinitializer
  exact ⟨hinitializer, hfills.1⟩

/-- The method that fills the field is there. -/
theorem method?_accessor (hplain : cls.isInstrumented = false)
    (hstrategy : style.counters.strategy = .field) :
    (cls.withProbes style laidOut).method? Entry.accessor style.counters.accessorDescriptor =
      some style.counters.accessor := by
  rw [method?_of_no_place hcls h (place?_accessor hplain _)]
  simp [added, hstrategy, Counters.accessor]

/-- A class initializer has its code, and fills the field if there is one. -/
theorem started_of_method? {m : Method}
    (hm : cls.method? Method.initializerName "()V" = some m) :
    ∃ place s, cls.place? Method.initializerName "()V" = some place ∧
      (cls.pairing style laidOut slots).sheets place = some s ∧
      (cls.method? Method.initializerName "()V").bind Method.body = some s.weave.body ∧
      ((cls.withProbes style laidOut).method? Method.initializerName "()V").bind Method.body =
        some s.body' ∧
      (style.counters.strategy = .field → s.fills = true) := by
  obtain ⟨place, hplace, -⟩ := Option.bind_eq_some_iff.1 (method?_eq_place? cls _ _ ▸ hm)
  obtain ⟨method, hmethod, hmem, hfound, hname, -, -⟩ :=
    method?_of_place? style hcls h hplace
  rcases code_of_place? style slots hcls h hplace with
    ⟨hnone, -⟩ | ⟨body, hsheet, hbody, hbody'⟩
  · have hsome := (hcls.initializer method hmem (by simp [Method.isInitializer, hname])).2
    rw [hfound, Option.bind_some] at hnone
    rw [hnone] at hsome
    cases hsome
  · refine ⟨place, _, hplace, hsheet, hbody, hbody', fun hstrategy => ?_⟩
    rw [fills_sheetAt, fillsAt, findIdx?_isInitializer hcls, hplace]
    exact decide_eq_true ⟨hstrategy, rfl⟩

/-- Without a class initializer one is added, if there is a field to be filled. -/
theorem method?_unstarted (hnone : cls.method? Method.initializerName "()V" = none) :
    (cls.withProbes style laidOut).method? Method.initializerName "()V" =
      if style.counters.strategy = .field then some style.counters.initializer else none := by
  have hplace := place?_eq_none hnone
  have haccessor : (Entry.accessor == Method.initializerName) = false := by decide
  rw [method?_of_no_place hcls h hplace]
  unfold added
  rw [findIdx?_isInitializer hcls, hplace]
  split <;> rename_i hstrategy <;>
    simp [hstrategy, Counters.accessor, Counters.initializer, haccessor]

/-- The method that fills the field comes right after the methods of the class. -/
theorem place?_ownAccessor (hplain : cls.isInstrumented = false)
    (hstrategy : style.counters.strategy = .field) :
    (cls.withProbes style laidOut).place? Entry.accessor style.counters.accessorDescriptor =
      some cls.methods.length := by
  rw [place?_withProbes hcls h, place?_accessor hplain]
  simp [added, hstrategy, Counters.accessor, List.findIdx?_cons]

/-- A class initializer that is added comes after it. -/
theorem place?_ownInitializer (hstrategy : style.counters.strategy = .field)
    (hnone : cls.method? Method.initializerName "()V" = none) :
    (cls.withProbes style laidOut).place? Method.initializerName "()V" =
      some (cls.methods.length + 1) := by
  have hplace := place?_eq_none hnone
  have haccessor : (Entry.accessor == Method.initializerName) = false := by decide
  rw [place?_withProbes hcls h, hplace, added, hstrategy, findIdx?_isInitializer hcls, hplace]
  simp [Counters.accessor, Counters.initializer, haccessor, List.findIdx?_cons, Nat.add_comm]

/-- An admissible class and its counterpart. -/
theorem good_pairing (hplain : cls.isInstrumented = false)
    (hown : style.counters.className = cls.name) (htraced : ∀ name ∈ style.traced, name = cls.name)
    (hslots : ∀ e ∈ laidOut, ∀ site slot, e.2.slot? site = some slot → slot < slots) :
    (cls.pairing style laidOut slots).Good where
  name' := by
    show (style.counters.prepare _).name = cls.name
    unfold Counters.prepare
    split <;> rfl
  own := hown
  notOwner := hcls.notOwner
  traced name hname := (htraced name hname).trans hown.symm
  sheet place s hs := by
    obtain ⟨method, body, hmethod, hbody, rfl⟩ := exists_of_sheets hs
    exact h.good_sheetAt hcls hslots hmethod hbody
  outside place hplace := by
    have hnone : cls.methods[place]? = none := List.getElem?_eq_none hplace
    simp only [pairing, hnone, Option.bind_none, Option.map_none]
  style place s hs := by
    obtain ⟨method, body, -, -, rfl⟩ := exists_of_sheets hs
    exact style_sheetAt place body
  code name descriptor hname := by
    cases hplace : cls.place? name descriptor with
    | none =>
        exact .inl (code_of_no_place hcls h hplace (hname.resolve_right (by simp [pairing, hplace])))
    | some place =>
        exact (code_of_place? style slots hcls h hplace).imp_right fun ⟨_, hsheet, hbody, hbody'⟩ =>
          ⟨place, _, hplace, hsheet, hbody, hbody'⟩
  params name descriptor place s d hplace hs hparse := by
    obtain ⟨method, hmethod, hmem, -, -, hdescriptor, -⟩ :=
      method?_of_place? style hcls h hplace
    obtain ⟨method', body, hmethod', hbody, rfl⟩ := exists_of_sheets hs
    rw [hmethod, Option.some.injEq] at hmethod'
    subst hmethod'
    rw [body_sheetAt]
    refine hcls.params method hmem body hbody d ?_
    rw [Method.parsedDescriptor, hdescriptor, hparse]
  fills name descriptor place s hplace hs hfills :=
    initializer_of_fills hcls h hplace hs hfills
  place' name descriptor place hplace := by
    rw [pairing, place?_withProbes hcls h]
    exact (congrArg (Option.or · _) hplace :)
  accessorPlace hstrategy := place?_ownAccessor hcls h hplain hstrategy
  initializerPlace hstrategy hnone := place?_ownInitializer hcls h hstrategy hnone
  accessor hstrategy := by
    show ((cls.withProbes style laidOut).method? _ _).bind Method.body = _
    exact congrArg (·.bind Method.body) (method?_accessor hcls h hplain hstrategy)
  started m hm := started_of_method? hcls h hm
  unstarted hnone := method?_unstarted hcls h hnone

end Good

end ClassFile

/-! ## Instrumenting -/

/-- What instrumenting a class with some options and filters consists of: what is scanned, the
record, the slots of each method, and what the slots stand for. -/
structure ClassFile.Made (cls : ClassFile) (options : Options) (filters : List Filter)
    (scanned : List ScannedMethod) (record : ClassRecord)
    (laidOut : List (ScannedMethod × MethodSlots)) (meanings : List Occurrence) : Prop where
  plain : cls.isInstrumented = false
  scan : cls.scanAll options filters = .ok scanned
  layOut : ClassFile.layOut options.instructions scanned cls.blankRecord = (record, laidOut)
  layout : record.Layout (entriesOf scanned) meanings
  fits : ∀ e ∈ laidOut, e.2.Fits e.1.index e.1.scan.kept meanings
  listed : laidOut.map Prod.fst = scanned
  methods : cls.LaidOut laidOut

namespace ClassFile

variable {cls : ClassFile} {options : Options} {filters : List Filter}

/-- What is scanned can be laid out. -/
theorem exists_made {scanned : List ScannedMethod} (hplain : cls.isInstrumented = false)
    (hscan : cls.scanAll options filters = .ok scanned) :
    ∃ meanings, cls.Made options filters scanned
      (ClassFile.layOut options.instructions scanned cls.blankRecord).1
      (ClassFile.layOut options.instructions scanned cls.blankRecord).2 meanings := by
  obtain ⟨hof, horder⟩ := of_scanAll hscan
  have hnodup := nodup_branchesOf (fun m hm => (hof m hm).sited) horder
  obtain ⟨meanings, hlayout, hfits⟩ :=
    layout_layOut options.instructions scanned cls.layout_blankRecord hnodup
  have hlisted := map_fst_layOut options.instructions scanned cls.blankRecord
  refine ⟨meanings, hplain, hscan, rfl, hlayout, hfits, hlisted, ?_, ?_⟩
  · intro e he
    exact hof e.1 (hlisted ▸ List.mem_map_of_mem he)
  · have heq : ((ClassFile.layOut options.instructions scanned cls.blankRecord).2.map
        fun e => e.1.index) = scanned.map ScannedMethod.index :=
      (List.map_map.symm.trans (congrArg (List.map ScannedMethod.index) hlisted) :)
    rw [heq]
    exact horder.imp Nat.ne_of_lt

namespace Made

variable {scanned : List ScannedMethod} {record : ClassRecord}
  {laidOut : List (ScannedMethod × MethodSlots)} {meanings : List Occurrence}

/-- A slot that a method was given is one of the record. -/
theorem slot_lt (h : cls.Made options filters scanned record laidOut meanings)
    {e : ScannedMethod × MethodSlots} (he : e ∈ laidOut) {site : ProbeSite} {slot : Nat}
    (hslot : e.2.slot? site = some slot) : slot < record.slotCount := by
  rw [← h.layout.length]
  exact (List.getElem?_eq_some_iff.1 ((h.fits e he).sound site slot hslot)).1

/-- The class and what becomes of it. -/
theorem good (h : cls.Made options filters scanned record laidOut meanings)
    (hcls : cls.Admissible) :
    (cls.pairing (options.probeStyle cls) laidOut record.slotCount).Good := by
  refine good_pairing hcls h.methods h.plain rfl ?_ fun e he site slot => h.slot_lt he
  intro name hname
  simp only [Options.probeStyle, Option.mem_def] at hname
  split at hname
  · exact (Option.some.inj hname).symm
  · cases hname

/-- The record is that of the class, with lines and slots. -/
theorem extends_record (h : cls.Made options filters scanned record laidOut meanings) :
    cls.blankRecord.ExtendedBy record := by
  have hextends := extends_layOut options.instructions scanned cls.blankRecord
  rw [h.layOut] at hextends
  exact hextends

theorem name_record (h : cls.Made options filters scanned record laidOut meanings) :
    record.name = cls.name := by
  obtain ⟨lines, slotCount, rfl⟩ := h.extends_record
  rfl

/-- A record with lines has slots. -/
theorem slotCount_pos (h : cls.Made options filters scanned record laidOut meanings)
    (hlines : record.lines.isEmpty = false) : 0 < record.slotCount := by
  obtain ⟨number, line, hline⟩ := SortedMap.exists_get?_of_not_isEmpty hlines
  rw [← h.layout.length]
  exact Nat.zero_lt_of_lt (List.getElem?_eq_some_iff.1 (h.layout.line number line hline)).1

end Made

end ClassFile

namespace Session

variable {s s' : Session} {filters : List Filter} {cls cls' : ClassFile}

/-- What instrumenting a class can give. -/
inductive Gives (s : Session) (filters : List Filter) (cls : ClassFile) :
    Instrumented × Session → Prop
  | marked : cls.isInstrumented = true → Gives s filters cls (.skipped .alreadyInstrumented, s)
  | defective {defect : Body.Defect} : cls.isInstrumented = false →
      cls.scanAll s.options filters = .error defect → Gives s filters cls (.unchanged, s)
  | lineless {scanned : List ScannedMethod} {record : ClassRecord}
      {laidOut : List (ScannedMethod × MethodSlots)} {meanings : List Occurrence} :
      cls.Made s.options filters scanned record laidOut meanings → record.lines.isEmpty = true →
      Gives s filters cls (.skipped .noExecutableCode, s.register record)
  | probed {scanned : List ScannedMethod} {record : ClassRecord}
      {laidOut : List (ScannedMethod × MethodSlots)} {meanings : List Occurrence} :
      cls.Made s.options filters scanned record laidOut meanings → record.lines.isEmpty = false →
      Gives s filters cls
        (.probed (cls.withProbes (s.options.probeStyle cls) laidOut), s.register record)

theorem gives_instrument (s : Session) (filters : List Filter) (cls : ClassFile) :
    s.Gives filters cls (s.instrument filters cls) := by
  unfold instrument
  split
  · rename_i hmarked
    exact .marked hmarked
  · rename_i hplain
    have hplain : cls.isInstrumented = false := by simpa using hplain
    split
    · rename_i hscan
      exact .defective hplain hscan
    · rename_i hscan
      obtain ⟨meanings, hmade⟩ := ClassFile.exists_made hplain hscan
      dsimp only
      split <;> rename_i hlines
      · exact .lineless hmade hlines
      · exact .probed hmade (by simpa using hlines)

/-- A class that gets probes. -/
theorem exists_of_probed (h : s.instrument filters cls = (.probed cls', s')) :
    ∃ scanned record laidOut meanings,
      cls.Made s.options filters scanned record laidOut meanings ∧
      record.lines.isEmpty = false ∧
      cls' = cls.withProbes (s.options.probeStyle cls) laidOut ∧ s' = s.register record := by
  have hgives := s.gives_instrument filters cls
  rw [h] at hgives
  cases hgives with
  | probed hmade hlines => exact ⟨_, _, _, _, hmade, hlines, rfl, rfl⟩

/-- A class gets probes if lines are kept of the only method of it that is scanned. -/
theorem instrument_of_kept {m : ScannedMethod} {entries : List Kept}
    (hplain : cls.isInstrumented = false) (hscan : cls.scanAll s.options filters = .ok [m])
    (hcount : s.options.instructions = false) (hkept : m.scan.kept = entries)
    (hlines : (ClassRecord.assignAll m.signature entries cls.blankRecord {}).1.lines.isEmpty =
      false) :
    s.instrument filters cls =
      (.probed (cls.withProbes (s.options.probeStyle cls)
          [(m, (ClassRecord.assignAll m.signature entries cls.blankRecord {}).2)]),
        s.register (ClassRecord.assignAll m.signature entries cls.blankRecord {}).1) := by
  simp only [instrument, hplain, hscan, hcount, ClassFile.layOut, ClassRecord.assign, hkept, hlines,
    Bool.false_eq_true, if_false]

end Session

/-! ## Machines -/

/-- Machines of a class and its counterpart to begin with. -/
theorem Pairing.machines_start (p : Pairing) (registry₀ : Registry) {registry : Registry}
    (keeper₀ keeper : Nat) (hregular : registry.Regular)
    (hslots : registry.slotCount? p.cls.name = some p.slots) :
    p.Machines (Machine.start p.cls registry₀ keeper₀) (Machine.start p.cls' registry keeper) where
  worlds :=
    { cls := rfl
      cls' := rfl
      shared := fun _ _ => rfl
      plain := nofun
      field := .inl rfl
      made := fun h => absurd rfl h
      regular := hregular
      slots := hslots }
  budget := Nat.le_refl _
  initialized := rfl
  ready := nofun

namespace ClassFile.Made

variable {cls : ClassFile} {options : Options} {filters : List Filter}
  {scanned : List ScannedMethod} {record : ClassRecord}
  {laidOut : List (ScannedMethod × MethodSlots)} {meanings : List Occurrence}

/-- New machines of a class and of what becomes of it give the same results, and the second one
notes what the first one does. -/
theorem invokeAll_start (h : cls.Made options filters scanned record laidOut meanings)
    (hcls : cls.Admissible) (registry₀ : Registry) {registry : Registry} (keeper₀ keeper : Nat)
    (hregular : registry.Regular)
    (hslots : registry.slotCount? cls.name = some record.slotCount) {calls : List Call}
    (hcalls : ∀ c ∈ calls, cls.Callable c)
    (hlimit : ∀ result ∈ ((Machine.start (cls.withProbes (options.probeStyle cls) laidOut)
      registry keeper).invokeAll calls).1, result ≠ .error .stepLimit) :
    ((Machine.start cls registry₀ keeper₀).invokeAll calls).1 =
        ((Machine.start (cls.withProbes (options.probeStyle cls) laidOut)
          registry keeper).invokeAll calls).1 ∧
      (cls.pairing (options.probeStyle cls) laidOut record.slotCount).Noted registry
        ((Machine.start cls registry₀ keeper₀).eventsOf calls)
        ((Machine.start (cls.withProbes (options.probeStyle cls) laidOut)
          registry keeper).invokeAll calls).2.world.registry := by
  have hm := (cls.pairing (options.probeStyle cls) laidOut record.slotCount).machines_start
    registry₀ keeper₀ keeper hregular hslots
  obtain ⟨hresults, -, hnoted⟩ := (h.good hcls).invokeAll_alike hm hcalls hlimit
  exact ⟨hresults, hnoted⟩

/-- A new session has declared the slots of the class once it has taken in the record. -/
theorem registry_register (h : cls.Made options filters scanned record laidOut meanings)
    (hlines : record.lines.isEmpty = false) (s : Session) :
    (s.register record).registry = s.registry.declare cls.name record.slotCount := by
  simp only [Session.register, if_pos (h.slotCount_pos hlines), h.name_record]

/-- New machines of a class and of what becomes of it in a new session. -/
theorem machines_register (h : cls.Made options filters scanned record laidOut meanings)
    (hlines : record.lines.isEmpty = false) (registry₀ : Registry) (keeper₀ keeper : Nat) :
    (cls.pairing (options.probeStyle cls) laidOut record.slotCount).Machines
      (Machine.start cls registry₀ keeper₀)
      (Machine.start (cls.withProbes (options.probeStyle cls) laidOut)
        (({ options } : Session).register record).registry keeper) := by
  refine Pairing.machines_start _ registry₀ keeper₀ keeper ?_ ?_
  · rw [h.registry_register hlines]
    exact (Registry.Unused.empty.declare cls.name record.slotCount).regular
  · rw [h.registry_register hlines]
    exact (Registry.slotCount?_declare _ _ _ _).trans (if_pos rfl)

end ClassFile.Made

end BytecodeCoverage
