import BytecodeCoverage.Proofs.Machine.Unaware
import BytecodeCoverage.Proofs.Probe.Counting
import BytecodeCoverage.Proofs.Probe.Depth

/-!
# Entering methods with probes

A method with probes gets its arrays first.  Getting them makes them, and a trace that has been
made is told; nothing else is counted.

With a field, the field has to hold the array already.  The class initializer sees to this by
calling the method that fills the field, before anything else runs.

**Main definitions.**
* `ProbeStyle.entered`: what entering a method does to the tally of its class.
* `Machine.Filled`: a world in which the field has been filled.

**Results.**
* `ProbeStyle.passes_prologue`: the arrays are in their local variables.
* `Counters.path_fill`: filling the field.
-/

namespace BytecodeCoverage

namespace Machine

variable {σ : Store} {className : String} {rest : List Value} {registry : Registry}

theorem passes_text (text : String) :
    Passes (.ldc (.string text)) σ { σ with stack := .text text :: σ.stack } :=
  fun _ _ => rfl

/-- Asking the registry for an array. -/
theorem passes_callHits (mode : HitMode) (hstack : σ.stack = .text className :: rest)
    (hrequest : σ.world.registry.requestCached ⟨className, σ.world.keeper⟩ =
      (className, registry)) :
    Passes (Entry.callHits mode) σ
      { (σ.withRegistry registry) with stack := .hits className :: rest } := by
  intro body pos
  cases mode <;>
  · simp [Entry.callHits, Instruction.invokeStatic, Instruction.execute, executeCall,
      executeEntry, Frame.pop, Store.frame, hstack, bind, Except.bind, World.hits, hrequest,
      Entry.flags, Entry.hits]
    exact ⟨rfl, rfl⟩

/-- Asking the registry for a trace. -/
theorem passes_callTrace (hstack : σ.stack = .text className :: rest) :
    Passes Entry.callTrace σ
      { (σ.withRegistry (σ.world.registry.requestMask className)) with
        stack := .mask className :: rest } := by
  intro body pos
  have htrace : (Entry.trace == Entry.hits || Entry.trace == Entry.flags) = false := by decide
  simp [Entry.callTrace, Instruction.invokeStatic, Instruction.execute, executeCall,
    executeEntry, Frame.pop, Store.frame, hstack, bind, Except.bind, World.mask, htrace]
  exact ⟨rfl, rfl⟩

/-- Loading the array as a constant. -/
theorem passes_constant (mode : HitMode)
    (hrequest : σ.world.registry.requestCached ⟨className, σ.world.keeper⟩ =
      (className, registry)) :
    Passes (.ldc (Entry.constant mode className)) σ
      { (σ.withRegistry registry) with stack := .hits className :: σ.stack } := by
  intro body pos
  cases mode <;>
  · simp [Entry.constant, Instruction.execute, executeConstant, World.hits, hrequest, Store.frame]
    exact ⟨rfl, rfl⟩

/-- Reading the field. -/
theorem passes_getstatic (descriptor : String) :
    Passes (.field .getstatic className Entry.field descriptor) σ
      { σ with
        stack := (σ.world.statics.get? (Entry.fieldKey className)).getD .null :: σ.stack } :=
  fun _ _ => rfl

end Machine

namespace ProbeStyle

open Machine

variable (style : ProbeStyle)

/-- What entering a method does to the tally of its class. -/
def entered (slots : Nat) (t : Tally) : Tally :=
  if style.traced.isSome then t.traceOn slots else t

theorem length_extras : style.extras.length = style.extraLocals.toNat := by
  unfold extras extraLocals
  cases style.traced <;> rfl

/-- The field holds the array of the class. -/
structure Ready (w : World) : Prop where
  field : w.statics.get? (Entry.fieldKey style.counters.className) =
    some (.hits style.counters.className)
  made : (w.registry.lookup? style.counters.className).isSome

variable {σ : Store} {base : List Value} {array : UInt16} {slots : Nat}

/-- Getting hold of the array. -/
theorem passes_acquire (hr : σ.world.registry.Regular)
    (hslots : σ.world.registry.slotCount? style.counters.className = some slots)
    (hready : style.counters.strategy = .field → style.Ready σ.world) :
    ∃ registry, PassesAll style.counters.acquire σ
        { (σ.withRegistry registry) with
          stack := .hits style.counters.className :: σ.stack } ∧
      Registry.Counted style.counters.className σ.world.registry registry ∧
      registry.tally style.counters.className =
        σ.world.registry.tally style.counters.className ∧
      (registry.lookup? style.counters.className).isSome := by
  obtain ⟨registry, hrequest, hcounted, htally, hmade⟩ :=
    Registry.requestCached_spec hr hslots σ.world.keeper
  unfold Counters.acquire
  cases hstrategy : style.counters.strategy with
  | field =>
      refine ⟨σ.world.registry, ?_, .refl hr, rfl, (hready hstrategy).made⟩
      have hfield := (hready hstrategy).field
      refine .cons (passes_getstatic _) ?_
      rw [hfield]
      exact .nil _
  | localVar =>
      refine ⟨registry, ?_, hcounted, htally, hmade⟩
      exact .cons (passes_text _) (.cons (passes_callHits _ rfl hrequest) (.nil _))
  | constant =>
      refine ⟨registry, ?_, hcounted, htally, hmade⟩
      exact .cons (passes_constant _ hrequest) (.nil _)

theorem set_both (base : List Value) (u v u' v' : Value) :
    ((base ++ [u, v]).set base.length u').set (base.length + 1) v' = base ++ [u', v'] := by
  simp

/-- The start of a method with probes puts the arrays into their variables. -/
theorem passes_prologue (htraced : ∀ name ∈ style.traced, name = style.counters.className)
    (hr : σ.world.registry.Regular)
    (hslots : σ.world.registry.slotCount? style.counters.className = some slots)
    (hready : style.counters.strategy = .field → style.Ready σ.world)
    (hlocals : σ.locals = base ++ List.replicate style.extraLocals.toNat .null)
    (hbase : base.length = array.toNat) (hroom : array.toNat ≤ 65533) :
    ∃ registry, PassesAll (style.prologue array) σ
        { (σ.withRegistry registry) with locals := base ++ style.extras } ∧
      Registry.Counted style.counters.className σ.world.registry registry ∧
      registry.tally style.counters.className =
        style.entered slots (σ.world.registry.tally style.counters.className) ∧
      style.Armed registry := by
  obtain ⟨r₁, hacquire, hcounted₁, htally₁, hmade⟩ := style.passes_acquire hr hslots hready
  cases hname : style.traced with
  | none =>
      have hextra : style.extraLocals.toNat = 1 := by simp [extraLocals, hname]
      rw [hextra] at hlocals
      have hstore := passes_store array
        (σ := { (σ.withRegistry r₁) with
          stack := .hits style.counters.className :: σ.stack }) rfl
        (by simp [Store.withRegistry, hlocals, hbase])
      refine ⟨r₁, ?_, hcounted₁, ?_, ⟨hmade, by simp [hname]⟩⟩
      · simp only [prologue, hname, List.append_nil]
        refine hacquire.append (.cons hstore ?_)
        simp only [Store.withRegistry, hlocals, ← hbase, extras, hname]
        simp only [List.replicate_one, List.set_append_right _ _ (Nat.le_refl _), Nat.sub_self,
          List.set_cons_zero, Option.map_none, Option.toList_none]
        exact .nil _
      · simp [entered, hname, htally₁]
  | some name =>
      obtain rfl := htraced name (by simp [hname])
      have hextra : style.extraLocals.toNat = 2 := by simp [extraLocals, hname]
      rw [hextra] at hlocals
      obtain ⟨hcounted₂, htally₂, hmasked⟩ :=
        Registry.requestMask_spec hcounted₁.regular ((hcounted₁.slotCount? _).trans hslots)
      refine ⟨_, ?_, hcounted₁.trans hcounted₂, ?_,
        ⟨hcounted₂.made hmade, fun _ => hmasked⟩⟩
      · simp only [prologue, hname, List.append_assoc]
        refine hacquire.append ?_
        refine .cons (passes_store _ rfl (by simp [Store.withRegistry, hlocals, hbase])) ?_
        refine .cons (passes_text _) (.cons (passes_callTrace rfl) ?_)
        refine .cons (passes_store _ rfl
          (by simp [Store.withRegistry, hlocals, hbase, Probe.toNat_next hroom])) ?_
        simp only [Store.withRegistry, hlocals, Probe.toNat_next hroom, ← hbase, extras, hname,
          List.replicate_succ, List.replicate_zero, set_both]
        exact .nil _
      · simp [entered, hname, htally₂, htally₁]

end ProbeStyle

namespace Machine

/-- A world in which the field has been filled, and nothing else has changed. -/
structure Filled (className : String) (w w' : World) : Prop where
  cls : w'.cls = w.cls
  keeper : w'.keeper = w.keeper
  field : w'.statics.get? (Entry.fieldKey className) = some (.hits className)
  others : ∀ key, key ≠ Entry.fieldKey className → w'.statics.get? key = w.statics.get? key
  counted : Registry.Counted className w.registry w'.registry
  tally : w'.registry.tally className = w.registry.tally className
  made : (w'.registry.lookup? className).isSome

variable {σ : Store} {v : Value} {rest : List Value}

theorem passes_dup (h : σ.stack = v :: rest) :
    Passes (.simple .dup) σ { σ with stack := v :: v :: rest } := by
  intro body pos
  simp [Instruction.execute, executeOpcode, Opcode.intConstant, binary?, executeSimple,
    Store.frame, Frame.push, h]

theorem passes_pop (h : σ.stack = v :: rest) :
    Passes (.simple .pop) σ { σ with stack := rest } := by
  intro body pos
  simp [Instruction.execute, executeOpcode, Opcode.intConstant, binary?, executeSimple,
    Store.frame, Frame.pop, bind, Except.bind, h]

theorem passes_putstatic {owner name : String} (descriptor : String) (h : σ.stack = v :: rest) :
    Passes (.field .putstatic owner name descriptor) σ
      { σ with
        stack := rest
        world := { σ.world with statics := σ.world.statics.insert (owner ++ "." ++ name) v } } := by
  intro body pos
  simp [Instruction.execute, executeField, Store.frame, Frame.pop, bind, Except.bind, h]

theorem passes_ifnonnull (target : Label) (h : σ.stack = .null :: rest) :
    Passes (.jump .ifnonnull target) σ { σ with stack := rest } := by
  intro body pos
  simp [Instruction.execute, branch, test?, comparison?, Store.frame, Frame.pop, bind,
    Except.bind, h, Value.isNull]

theorem passes_label (placed : Label) : Passes (.label placed) σ σ :=
  fun _ _ => rfl

/-- A value is returned to the caller. -/
theorem Moment.leads_areturn {body : Body} {pos : Nat} {f : Frame} {callers : List Frame}
    (hinsn : body.code[pos]? = some (.simple .areturn)) (h : σ.stack = v :: rest) (place : Nat)
    (places : List Nat) :
    Moment.Leads ⟨place :: places, σ.thread body pos (f :: callers)⟩ (.simple .areturn)
      ⟨places, { frame := f.push v, callers, world := σ.world }⟩ := by
  have hexecute : (Instruction.simple .areturn).execute (σ.frame body pos) σ.world =
      .ok (.leave (some v), σ.world) := by
    simp [Instruction.execute, executeOpcode, Opcode.intConstant, binary?, executeSimple,
      Store.frame, Frame.pop, bind, Except.bind, h]
  refine ⟨hinsn, ?_, ?_⟩
  · simp only [Thread.step, Store.thread, hexecute, Thread.resume, Frame.pushAny]
  · simp only [Thread.observe, Store.thread, hexecute, List.tail_cons]

end Machine

namespace Counters

open Machine

variable (c : Counters)

theorem code_accessorBody :
    c.accessorBody.code =
      [.field .getstatic c.className Entry.field (Entry.arrayDescriptor c.mode), .simple .dup] ++
        .jump .ifnonnull ⟨0⟩ ::
          ([.simple .pop, .ldc (.string c.className), Entry.callHits c.mode, .simple .dup,
            .field .putstatic c.className Entry.field (Entry.arrayDescriptor c.mode)] ++
            [.label ⟨0⟩, .simple .areturn]) :=
  rfl

theorem position?_accessorBody : c.accessorBody.position? ⟨0⟩ = some 8 := by
  obtain ⟨strategy, className, mode⟩ := c
  cases mode <;> rfl

theorem parameterCount_accessorDescriptor : parameterCount c.accessorDescriptor = .ok 0 := by
  unfold accessorDescriptor
  cases c.mode <;> cbv

variable {c}

/-- The method that fills the field returns what is in it afterwards. -/
theorem path_accessor {w : World} {slots : Nat} (place : Nat) (places : List Nat) (f : Frame)
    (callers : List Frame) (hr : w.registry.Regular)
    (hslots : w.registry.slotCount? c.className = some slots)
    (hfield : w.statics.get? (Entry.fieldKey c.className) = none ∨
      w.statics.get? (Entry.fieldKey c.className) = some (.hits c.className))
    (hmade : w.statics.get? (Entry.fieldKey c.className) ≠ none →
      (w.registry.lookup? c.className).isSome) :
    ∃ xs w', Path xs
        ⟨place :: places,
          { frame := .enter c.accessorBody [], callers := f :: callers, world := w }⟩
        ⟨places, { frame := f.push (.hits c.className), callers, world := w' }⟩ ∧
      Filled c.className w w' ∧
      ∀ x ∈ xs, x.Amid c.accessorBody (place :: places) (f :: callers) 2 fun _ => True := by
  have hcode := c.code_accessorBody
  let σ : Store := ⟨[], (Frame.enter c.accessorBody []).locals, w⟩
  -- Both ways begin with reading the field and testing what is in it.
  have hstart : ∀ v, (w.statics.get? (Entry.fieldKey c.className)).getD .null = v →
      PassesAll
        [.field .getstatic c.className Entry.field (Entry.arrayDescriptor c.mode), .simple .dup]
        σ { σ with stack := [v, v] } := by
    rintro v rfl
    exact .cons (passes_getstatic _) (.cons (passes_dup rfl) (.nil _))
  rcases hfield with hnone | hsome
  · obtain ⟨registry, hrequest, hcounted, htally, hmade⟩ :=
      Registry.requestCached_spec hr hslots w.keeper
    obtain ⟨xs, hfill, hxs⟩ := (((hstart .null (by simp [hnone])).append
      (.cons (passes_ifnonnull ⟨0⟩ rfl) (.cons (passes_pop rfl) (.cons (passes_text _)
        (.cons (passes_callHits c.mode rfl hrequest) (.cons (passes_dup rfl)
          (.cons (passes_putstatic _ rfl) (.cons (passes_label _) (.nil _)))))))))).path
      c.accessorBody 0 (place :: places) (f :: callers)
      (rfl : c.accessorBody.code.drop 0 = _ ++ [.simple .areturn])
    refine ⟨_, _, hfill.append (.single (Moment.leads_areturn rfl rfl place places)),
      ⟨rfl, rfl, SortedMap.get?_insert_self _ _ _,
        fun key hkey => SortedMap.get?_insert_of_ne _ _ hkey, hcounted, htally, hmade⟩,
      List.forall_mem_append.2 ⟨fun x hx => (hxs x hx).mono ?_ fun _ _ => trivial, ?_⟩⟩
    · exact Nat.le_of_eq ((Nat.zero_add _).trans (c.peak_filling ⟨0⟩))
    · simp only [List.mem_singleton, forall_eq]
      exact ⟨rfl, rfl, rfl, by simp [Store.thread, Store.frame], trivial⟩
  · obtain ⟨xs, htest, hxs⟩ := (hstart (.hits c.className) (by simp [hsome])).path
      c.accessorBody 0 (place :: places) (f :: callers) hcode
    have hjump : Moment.Leads
        ⟨place :: places,
          ({ σ with stack := [.hits c.className, .hits c.className] } : Store).thread
            c.accessorBody 2 (f :: callers)⟩ (.jump .ifnonnull ⟨0⟩)
        ⟨place :: places, ({ σ with stack := [.hits c.className] } : Store).thread
          c.accessorBody 8 (f :: callers)⟩ := by
      have hexecute : (Instruction.jump .ifnonnull ⟨0⟩).execute
          (({ σ with stack := [.hits c.className, .hits c.className] } : Store).frame
            c.accessorBody 2) σ.world =
          .ok (.jump (({ σ with stack := [.hits c.className] } : Store).frame c.accessorBody 2)
            ⟨0⟩, σ.world) := by
        simp [Instruction.execute, branch, test?, comparison?, Store.frame, Frame.pop, bind,
          Except.bind, Value.isNull]
      refine ⟨rfl, ?_, Thread.places_observe_jump hexecute _⟩
      simp only [Thread.step, Store.thread, hexecute, Thread.resume]
      simp only [Store.frame, c.position?_accessorBody]
    obtain ⟨ys, hlabel, hys⟩ := (PassesAll.cons (passes_label ⟨0⟩) (.nil
      ({ σ with stack := [.hits c.className] } : Store))).path c.accessorBody 8 (place :: places)
      (f :: callers) (rfl : c.accessorBody.code.drop 8 = _ ++ [.simple .areturn])
    refine ⟨_, _, (htest.append (.single hjump)).append
        (hlabel.append (.single (Moment.leads_areturn rfl rfl place places))),
      ⟨rfl, rfl, hsome, fun _ _ => rfl, .refl hr, rfl, hmade (by simp [hsome])⟩, ?_⟩
    simp only [List.forall_mem_append, List.mem_singleton, forall_eq]
    refine ⟨⟨fun x hx => (hxs x hx).mono ?_ fun _ _ => trivial, ?_⟩,
      fun x hx => (hys x hx).mono ?_ fun _ _ => trivial, ?_⟩
    · exact Nat.le_refl 2
    · exact ⟨rfl, rfl, rfl, by simp [Store.thread, Store.frame], trivial⟩
    · exact Nat.le_succ 1
    · exact ⟨rfl, rfl, rfl, by simp [Store.thread, Store.frame], trivial⟩

/-- The code that fills the field does so and leaves the frame as it was. -/
theorem path_fill {w : World} {slots : Nat} {g : Frame} (places : List Nat)
    (callers : List Frame) {rest : List Instruction}
    (hcode : g.body.code.drop g.pos = c.fill ++ rest)
    (hname : c.className ≠ Entry.owner) (hclass : w.cls.name = c.className)
    (haccessor : w.code Entry.accessor c.accessorDescriptor = .ok c.accessorBody) {place : Nat}
    (hplace : w.cls.place? Entry.accessor c.accessorDescriptor = some place)
    (hr : w.registry.Regular) (hslots : w.registry.slotCount? c.className = some slots)
    (hfield : w.statics.get? (Entry.fieldKey c.className) = none ∨
      w.statics.get? (Entry.fieldKey c.className) = some (.hits c.className))
    (hmade : w.statics.get? (Entry.fieldKey c.className) ≠ none →
      (w.registry.lookup? c.className).isSome) :
    ∃ xs w', Path xs ⟨places, { frame := g, callers, world := w }⟩
        ⟨places, { frame := { g with pos := g.pos + c.fill.length }, callers, world := w' }⟩ ∧
      Filled c.className w w' ∧
      ∀ x ∈ xs,
        (x.Amid g.body places callers (g.stack.length + 1)
          fun pos => g.pos ≤ pos ∧ pos < g.pos + c.fill.length) ∨
        x.Amid c.accessorBody (place :: places) (g.next :: callers) 2 fun _ => True := by
  obtain ⟨xs, w', hrun, hfilled, hxs⟩ :=
    path_accessor place places g.next callers hr hslots hfield hmade
  have hcall : g.current? = some (.invokeStatic c.className Entry.accessor
      c.accessorDescriptor) := by
    rw [Frame.current?, ← List.head?_drop, hcode]
    rfl
  have hpop : g.body.code[g.pos + 1]? = some (.simple .pop) := by
    rw [← List.head?_drop, ← List.tail_drop, hcode]
    rfl
  have hfirst : Moment.Leads ⟨places, { frame := g, callers, world := w }⟩
      (.invokeStatic c.className Entry.accessor c.accessorDescriptor)
      ⟨place :: places,
        { frame := .enter c.accessorBody [], callers := g.next :: callers, world := w }⟩ := by
    have howner : (c.className == Entry.owner) = false := by simpa using hname
    have hexecute : (Instruction.invokeStatic c.className Entry.accessor
        c.accessorDescriptor).execute g w =
        .ok (.call g Entry.accessor c.accessorDescriptor [], w) := by
      simp [Instruction.invokeStatic, Instruction.execute, executeCall, howner, hclass,
        c.parameterCount_accessorDescriptor, Frame.popArgs, bind, Except.bind]
    refine ⟨hcall, ?_, ?_⟩
    · simp only [Thread.step, hexecute, Thread.resume, haccessor]
    · simp only [Thread.observe, hexecute, hplace]
  have hlast : Moment.Leads
      ⟨places, { frame := g.next.push (.hits c.className), callers, world := w' }⟩ (.simple .pop)
      ⟨places, { frame := { g with pos := g.pos + c.fill.length }, callers, world := w' }⟩ := by
    have hexecute : (Instruction.simple .pop).execute (g.next.push (.hits c.className)) w' =
        .ok (.next g.next, w') := by
      simp [Instruction.execute, executeOpcode, Opcode.intConstant, binary?, executeSimple,
        Frame.pop, Frame.push, bind, Except.bind]
    refine ⟨hpop, ?_, Thread.places_observe_next hexecute places⟩
    simp only [Thread.step, hexecute, Thread.resume]
    rfl
  refine ⟨_, w', (Path.cons hfirst hrun).append (.single hlast), hfilled, ?_⟩
  simp only [List.cons_append, List.forall_mem_cons, List.forall_mem_append, List.mem_singleton,
    forall_eq]
  have hfill : c.fill.length = 2 := rfl
  refine ⟨.inl ⟨rfl, rfl, rfl, Nat.le_succ _, Nat.le_refl _, by
      show g.pos < _
      omega⟩, fun x hx => .inr (hxs x hx), .inl ⟨rfl, rfl, rfl, Nat.le_refl _, Nat.le_succ _, by
      show g.pos + 1 < _
      omega⟩⟩

end Counters

end BytecodeCoverage
