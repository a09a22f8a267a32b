import BytecodeCoverage.Probe.Code
import BytecodeCoverage.Proofs.Machine.Steps
import BytecodeCoverage.Proofs.Registry.Tally

/-!
# What a probe does

A probe takes the array from its local variable, adds to the counter in its slot or sets it, and
leaves everything else as it was.  The probe of a line also marks the line in the trace, if tests
are traced.

A slot is pushed as an integer, so slots beyond the greatest integer are taken for it, and a
counter starts over at zero after the greatest integer.

**Main definitions.**
* `ProbeStyle.tallied`: what a probe does to the tally of its class.
* `ProbeStyle.extras`: what the probes keep in their local variables.

**Results.**
* `ProbeStyle.passes_probe`: a probe is straight code with this effect.
-/

namespace BytecodeCoverage

namespace Probe

/-- The number that is pushed for a slot. -/
def place (slot : Nat) : Nat :=
  min slot 0x7fffffff

/-- What a probe makes of a counter. -/
def bump (mode : HitMode) (n : UInt32) : UInt32 :=
  match mode with
  | .count => UInt32.ofNat (Int32.ofNat (min n.toNat 0x7fffffff) + 1).toInt.toNat
  | .flag => 1

/-- There is room for a second variable behind the first one. -/
theorem toNat_next {array : UInt16} (h : array.toNat ≤ 65533) :
    (array + 1).toNat = array.toNat + 1 := by
  rw [UInt16.toNat_add]
  exact Nat.mod_eq_of_lt (by simp; omega)

theorem place_le (slot : Nat) : place slot ≤ slot :=
  Nat.min_le_left _ _

theorem toInt_place (slot : Nat) : (Int32.ofNat (place slot)).toInt = place slot :=
  Int32.toInt_ofNat_of_lt (by unfold place; omega)

end Probe

namespace Tally

/-- A counter is added to or set. -/
def hit (t : Tally) (mode : HitMode) (slot : Nat) : Tally :=
  { t with counts := t.counts.modify slot (Probe.bump mode) }

end Tally

namespace ProbeStyle

/-- What the probe at a site with a slot does to the tally of its class. -/
def tallied (style : ProbeStyle) (site : ProbeSite) (slot : Nat) (t : Tally) : Tally :=
  let t := t.hit style.mode (Probe.place slot)
  match site with
  | .line _ => if style.traced.isSome then t.mark (Probe.place slot) else t
  | _ => t

end ProbeStyle

namespace Machine

variable {σ : Store}

/-! ## The instructions of a probe -/

theorem passes_pushInt (value : Int32) :
    Passes (Instruction.pushInt value) σ { σ with stack := .int value :: σ.stack } := by
  have heq : ∀ n : Int32, value.toInt = n.toInt → value = n := fun n => Int32.toInt.inj
  intro body pos
  unfold Instruction.pushInt
  split <;> rename_i h
  · rw [heq (-1) h]; rfl
  · rw [heq 0 h]; rfl
  · rw [heq 1 h]; rfl
  · rw [heq 2 h]; rfl
  · rw [heq 3 h]; rfl
  · rw [heq 4 h]; rfl
  · rw [heq 5 h]; rfl
  · split
    · rfl
    · split <;> rfl

theorem passes_load {index : UInt16} {v : Value} (h : σ.locals[index.toNat]? = some v) :
    Passes (.localVar .aload index) σ { σ with stack := v :: σ.stack } := by
  intro body pos
  simp only [Instruction.execute, executeVariable, Frame.load, Store.frame, h]
  rfl

theorem passes_store (index : UInt16) {v : Value} {rest : List Value}
    (hstack : σ.stack = v :: rest) (h : index.toNat < σ.locals.length) :
    Passes (.localVar .astore index) σ
      { σ with stack := rest, locals := σ.locals.set index.toNat v } := by
  intro body pos
  simp only [Instruction.execute, executeVariable, Frame.pop, Store.frame, hstack, Frame.store,
    bind, Except.bind, h, if_true]

/-- Popping the number of a slot. -/
theorem popIndex_place (f : Frame) (slot : Nat) {rest : List Value}
    (h : f.stack = .int (Int32.ofNat (Probe.place slot)) :: rest) :
    f.popIndex = .ok (Probe.place slot, { f with stack := rest }) := by
  have hneg : ¬ Int32.ofNat (Probe.place slot) < 0 := by
    rw [Int32.lt_iff_toInt_lt, Probe.toInt_place]
    simp
  simp only [Frame.popIndex, Frame.popInt, Frame.pop, h, bind, Except.bind, hneg, if_false,
    Probe.toInt_place]
  rfl

theorem passes_dup2 {u v : Value} {rest : List Value} (h : σ.stack = v :: u :: rest) :
    Passes (.simple .dup2) σ { σ with stack := v :: u :: v :: u :: rest } := by
  intro body pos
  simp [Instruction.execute, executeOpcode, Opcode.intConstant, binary?, executeSimple,
    Store.frame, Frame.push, h]

theorem passes_one : Passes (.simple .iconst1) σ { σ with stack := .int 1 :: σ.stack } :=
  fun _ _ => rfl

theorem passes_add {a b : Int32} {rest : List Value} (h : σ.stack = .int b :: .int a :: rest) :
    Passes (.simple .iadd) σ { σ with stack := .int (a + b) :: rest } := by
  intro body pos
  simp only [Instruction.execute, executeOpcode, Opcode.intConstant, binary?, Frame.popInt,
    Frame.pop, Store.frame, h, bind, Except.bind, Frame.push]

/-- Reading a counter. -/
theorem passes_element {className : String} {slot : Nat} {rest : List Value} {n : UInt32}
    (hstack : σ.stack = .int (Int32.ofNat (Probe.place slot)) :: .hits className :: rest)
    (hcount : (σ.world.registry.array className)[Probe.place slot]? = some n) :
    Passes (.simple .iaload) σ
      { σ with stack := .int (Int32.ofNat (min n.toNat 0x7fffffff)) :: rest } := by
  intro body pos
  have hpop := popIndex_place (σ.frame body pos) slot hstack
  simp only [Instruction.execute, executeOpcode, Opcode.intConstant, binary?, executeSimple, hpop,
    bind, Except.bind, Frame.pop, World.element, hcount]
  rfl

/-- Writing an element of an array. -/
theorem passes_setElement {op : Opcode} (hop : op = .iastore ∨ op = .bastore) {array : Value}
    {slot : Nat} {n : Int32} {rest : List Value} {world : World}
    (hstack : σ.stack = .int n :: .int (Int32.ofNat (Probe.place slot)) :: array :: rest)
    (hset : σ.world.setElement array (Probe.place slot) n = .ok world) :
    Passes (.simple op) σ { σ with stack := rest, world } := by
  intro body pos
  have hpop := popIndex_place { σ.frame body pos with
    stack := .int (Int32.ofNat (Probe.place slot)) :: array :: rest } slot rfl
  rcases hop with rfl | rfl <;>
  · simp only [Instruction.execute, executeOpcode, Opcode.intConstant, binary?, executeSimple,
      Frame.popInt, Frame.pop, Store.frame, hstack, bind, Except.bind] at hpop ⊢
    simp only [hpop, hset]

/-! ## Probes -/

/-- The registry after an execution that changes nothing else. -/
def Store.withRegistry (σ : Store) (registry : Registry) : Store :=
  { σ with world := { σ.world with registry } }

variable {className : String} {slots slot : Nat} {array : UInt16}

/-- Counting in a slot of the array of a class. -/
theorem passes_code_hits (mode : HitMode) (h : σ.world.registry.Regular)
    (hslots : σ.world.registry.slotCount? className = some slots)
    (hmade : (σ.world.registry.lookup? className).isSome) (hslot : slot < slots)
    (harray : σ.locals[array.toNat]? = some (.hits className)) :
    ∃ registry, PassesAll (Probe.code mode array slot) σ (σ.withRegistry registry) ∧
      Registry.Counted className σ.world.registry registry ∧
      registry.tally className =
        (σ.world.registry.tally className).hit mode (Probe.place slot) := by
  obtain ⟨hits, hhits⟩ := Option.isSome_iff_exists.1 hmade
  have hlength : hits.length = slots := by
    have := h.made className hits hhits
    rw [hslots] at this
    simpa using this.symm
  have hplace : Probe.place slot < slots := Nat.lt_of_le_of_lt (Probe.place_le slot) hslot
  have hget : hits[Probe.place slot]? = some hits[Probe.place slot] :=
    List.getElem?_eq_getElem (hlength ▸ hplace)
  have hcounts := Registry.counts_tally hhits
  obtain ⟨registry, hstore, hcounted, htally⟩ := Registry.store_spec h hslots hmade hplace
    (Probe.bump mode hits[Probe.place slot])
  refine ⟨registry, ?_, hcounted, ?_⟩
  · cases mode with
    | flag =>
        refine .cons (passes_load harray) (.cons (passes_pushInt _) (.cons passes_one
          (.cons (passes_setElement (.inr rfl) rfl ?_) (.nil _))))
        have hone : UInt32.ofNat (1 : Int32).toInt.toNat = 1 := by decide
        simp only [World.setElement, hone]
        simp only [Probe.bump] at hstore
        simp [hstore]
    | count =>
        have hread : (σ.world.registry.array className)[Probe.place slot]? =
            some hits[Probe.place slot] := by
          simp [Registry.array, hhits, hget]
        refine .cons (passes_load harray) (.cons (passes_pushInt _) (.cons (passes_dup2 rfl)
          (.cons (passes_element rfl hread) (.cons passes_one (.cons (passes_add rfl)
            (.cons (passes_setElement (.inl rfl) rfl ?_) (.nil _)))))))
        simp only [Probe.bump] at hstore
        simp only [World.setElement, hstore, if_true]
  · rw [htally, Tally.hit, Tally.setCount, hcounts, List.modify_eq_set, hget,
      Option.getD_some]

/-- Marking a slot in the trace of a class. -/
theorem passes_code_mask (h : σ.world.registry.Regular)
    (hslots : σ.world.registry.slotCount? className = some slots)
    (hmasked : (σ.world.registry.tracker.mask? className).isSome) (hslot : slot < slots)
    (harray : σ.locals[array.toNat]? = some (.mask className)) :
    ∃ registry, PassesAll (Probe.code .flag array slot) σ (σ.withRegistry registry) ∧
      Registry.Counted className σ.world.registry registry ∧
      registry.tally className = (σ.world.registry.tally className).mark (Probe.place slot) := by
  obtain ⟨registry, htrace, hcounted, htally⟩ := Registry.traceSlot_spec h hslots hmasked
    (Nat.lt_of_le_of_lt (Probe.place_le slot) hslot)
  refine ⟨registry, ?_, hcounted, htally⟩
  refine .cons (passes_load harray) (.cons (passes_pushInt _) (.cons passes_one
    (.cons (passes_setElement (.inr rfl) rfl ?_) (.nil _))))
  have hone : ¬ (1 : Int32) = 0 := by decide
  simp [World.setElement, hone, htrace]

end Machine

namespace ProbeStyle

open Machine

variable (style : ProbeStyle)

/-- What the probes keep in their local variables. -/
def extras : List Value :=
  .hits style.counters.className :: (style.traced.map Value.mask).toList

/-- The registry is ready for the probes: the array is there, and the trace if there is one. -/
structure Armed (r : Registry) : Prop where
  made : (r.lookup? style.counters.className).isSome
  masked : style.traced.isSome → (r.tracker.mask? style.counters.className).isSome

variable {style} in
theorem Armed.counted {r r' : Registry} (h : style.Armed r)
    (hcounted : Registry.Counted style.counters.className r r') : style.Armed r' where
  made := hcounted.made h.made
  masked htraced := hcounted.masked (h.masked htraced)

/-- A probe is straight code that counts in its slot. -/
theorem passes_probe {σ : Store} {base : List Value} {array : UInt16} {slots slot : Nat}
    (site : ProbeSite) (htraced : ∀ name ∈ style.traced, name = style.counters.className)
    (hr : σ.world.registry.Regular)
    (hslots : σ.world.registry.slotCount? style.counters.className = some slots)
    (harmed : style.Armed σ.world.registry) (hslot : slot < slots)
    (hlocals : σ.locals = base ++ style.extras) (hbase : base.length = array.toNat)
    (hroom : array.toNat ≤ 65533) :
    ∃ registry, PassesAll (style.probe array site slot) σ (σ.withRegistry registry) ∧
      Registry.Counted style.counters.className σ.world.registry registry ∧
      registry.tally style.counters.className =
        style.tallied site slot (σ.world.registry.tally style.counters.className) := by
  have harray : σ.locals[array.toNat]? = some (.hits style.counters.className) := by
    rw [hlocals, ← hbase]
    simp [extras]
  obtain ⟨r₁, hpasses₁, hcounted₁, htally₁⟩ :=
    passes_code_hits style.mode hr hslots harmed.made hslot harray
  by_cases hmask : (∃ number, site = .line number) ∧ style.traced.isSome = true
  · obtain ⟨⟨number, rfl⟩, hmask⟩ := hmask
    obtain ⟨name, hname⟩ := Option.isSome_iff_exists.1 hmask
    obtain rfl := htraced name hname
    have harray' : (σ.withRegistry r₁).locals[(array + 1).toNat]? =
        some (.mask style.counters.className) := by
      rw [Store.withRegistry, hlocals, Probe.toNat_next hroom, ← hbase]
      simp [extras, hname]
    obtain ⟨r₂, hpasses₂, hcounted₂, htally₂⟩ :=
      passes_code_mask (σ := σ.withRegistry r₁) hcounted₁.regular
        ((hcounted₁.slotCount? _).trans hslots) ((harmed.counted hcounted₁).masked hmask) hslot
        harray'
    refine ⟨r₂, ?_, hcounted₁.trans hcounted₂, ?_⟩
    · simp only [probe, hmask, if_true]
      exact hpasses₁.append hpasses₂
    · simp only [tallied, hmask, if_true]
      rw [htally₂, Store.withRegistry, htally₁]
  · have hprobe : style.probe array site slot = Probe.code style.mode array slot := by
      cases site with
      | line number =>
          have : style.traced.isSome = false := by simpa using hmask
          simp [probe, this]
      | _ => simp [probe]
    have htallied : ∀ t : Tally, style.tallied site slot t =
        t.hit style.mode (Probe.place slot) := by
      intro t
      cases site with
      | line number =>
          have : style.traced.isSome = false := by simpa using hmask
          simp [tallied, this]
      | _ => rfl
    exact ⟨r₁, hprobe ▸ hpasses₁, hcounted₁, by rw [htallied, htally₁]⟩

end ProbeStyle

end BytecodeCoverage
