import BytecodeCoverage.Proofs.Probe.Notes
import BytecodeCoverage.Proofs.SortedMap

/-!
# Counters that start over

A probe reads its counter as an integer, adds one and writes the sum back.  A counter beyond the
greatest integer is read as the greatest integer, the sum is negative then, and a negative number is
stored as zero.  So a counter starts over at zero after the greatest integer, while
`Registry.increment` goes on up to the greatest word and stops there.

**Main definitions.**
* `Probe.bumpAll`: what probes one after the other make of an array.
* `Probe.turned`: the number that a counter holds after some probes.

**Results.**
* `Machine.PassesAll.run_add`: straight code takes as many steps as it has instructions.
* `Machine.run_probes`: the array after any number of probes, when a counter is zero then, and when
  a probe does what `Registry.increment` does.
* `Machine.startsOver_full`: a probe that sets a counter back to zero.
-/

namespace BytecodeCoverage

namespace Probe

/-- What probes of these slots make of an array, one after the other. -/
def bumpAll (slots : List Nat) (hits : List UInt32) : List UInt32 :=
  slots.foldl (fun hits slot => hits.modify (place slot) (bump .count)) hits

/-- The number that a counter holds after some probes. -/
def turned (n times : Nat) : Nat :=
  if times = 0 then n else (min n 0x7fffffff + times) % 0x80000000

/-- A counter goes up to the greatest integer and then starts over. -/
theorem toNat_bump (n : UInt32) :
    (bump .count n).toNat = (min n.toNat 0x7fffffff + 1) % 0x80000000 := by
  by_cases h : n.toNat < 0x7fffffff
  · rw [toNat_bump_count h]
    omega
  · have hmin : min n.toNat 0x7fffffff = 0x7fffffff := Nat.min_eq_right (by omega)
    have hzero : UInt32.ofNat (Int32.ofNat 0x7fffffff + 1).toInt.toNat = 0 := by decide
    rw [bump, hmin, hzero]
    rfl

theorem toNat_iterate_bump (n : UInt32) (times : Nat) :
    ((bump .count)^[times] n).toNat = turned n.toNat times := by
  induction times with
  | zero => rfl
  | succ times ih =>
      rw [Function.iterate_succ_apply', toNat_bump, ih, turned, turned, if_neg times.succ_ne_zero]
      split <;> omega

/-- After at least one probe a counter is zero whenever the probes have filled it up. -/
theorem turned_eq_zero (n times : Nat) : turned n times = 0 ↔
    (times = 0 ∧ n = 0) ∨ (0 < times ∧ 0x80000000 ∣ min n 0x7fffffff + times) := by
  unfold turned
  split <;> omega

/-- Every counter is added to as often as it is probed. -/
theorem getElem?_bumpAll (slots : List Nat) (hits : List UInt32) (i : Nat) :
    (bumpAll slots hits)[i]? =
      hits[i]?.map (bump .count)^[slots.countP fun slot => place slot = i] := by
  induction slots generalizing hits with
  | nil => simp [bumpAll]
  | cons slot rest ih =>
      rw [bumpAll, List.foldl_cons, ← bumpAll, ih, List.getElem?_modify, List.countP_cons]
      by_cases h : place slot = i <;> simp [h, Function.iterate_succ]

theorem length_bumpAll (slots : List Nat) (hits : List UInt32) :
    (bumpAll slots hits).length = hits.length := by
  induction slots generalizing hits with
  | nil => rfl
  | cons slot rest ih => rw [bumpAll, List.foldl_cons, ← bumpAll, ih, List.length_modify]

/-- The sum that stops at the greatest word is that of a probe below the greatest integer only. -/
theorem bump_eq_satAdd (n : UInt32) : bump .count n = satAdd n 1 ↔ n.toNat < 0x7fffffff := by
  rw [← UInt32.toNat_inj, toNat_bump, toNat_satAdd, UInt32.toNat_one, maxWord]
  have := n.toNat_lt
  omega

theorem bump_ne (n : UInt32) : bump .count n ≠ n := by
  rw [ne_eq, ← UInt32.toNat_inj, toNat_bump]
  omega

end Probe

namespace Registry

variable {className : String} {r : Registry} {hits : List UInt32}

/-- Changing an array of which nothing changes. -/
theorem modifyArray_eq_self {f : List UInt32 → List UInt32}
    (h : r.lookup? className = some hits) (hf : f hits = hits) : r.modifyArray className f = r := by
  have harrays : r.arrays.insert className hits = r.arrays := by
    refine SortedMap.ext fun k => ?_
    by_cases hk : k = className
    · rw [hk, SortedMap.get?_insert_self]
      exact h.symm
    · rw [SortedMap.get?_insert_of_ne _ _ hk]
  rw [modifyArray, h]
  simp only [hf, harrays]

/-- Changing an array twice. -/
theorem modifyArray_modifyArray (f g : List UInt32 → List UInt32) :
    (r.modifyArray className f).modifyArray className g =
      r.modifyArray className fun hits => g (f hits) := by
  cases h : r.lookup? className with
  | none => simp [modifyArray, h]
  | some hits =>
      have hinsert : ∀ x y, (r.arrays.insert className x).insert className y =
          r.arrays.insert className y := by
        intro x y
        refine SortedMap.ext fun k => ?_
        simp only [SortedMap.get?_insert]
        split <;> rfl
      have hlookup : ({ r with arrays := r.arrays.insert className (f hits) } :
          Registry).lookup? className = some (f hits) := by
        rw [lookup?_insert, if_pos rfl]
      simp only [modifyArray, h, hlookup, hinsert]

/-- Two changes of an array come to the same just if the new arrays are equal. -/
theorem modifyArray_inj {f g : List UInt32 → List UInt32} (h : r.lookup? className = some hits) :
    r.modifyArray className f = r.modifyArray className g ↔ f hits = g hits := by
  constructor
  · intro heq
    have hlookup := congrArg (fun r : Registry => r.lookup? className) heq
    simpa [lookup?_modifyArray_self, h] using hlookup
  · intro heq
    simp only [modifyArray, h, heq]

/-- A probe does what `increment` does just if its slot is an integer and its counter is less than
the greatest one. -/
theorem modifyArray_bumpAll_eq_increment {slot : Nat} {n : UInt32}
    (h : r.lookup? className = some hits) (hn : hits[slot]? = some n) :
    r.modifyArray className (Probe.bumpAll [slot]) = (r.increment className slot).2 ↔
      slot ≤ 0x7fffffff ∧ n.toNat < 0x7fffffff := by
  obtain ⟨hslot, rfl⟩ := List.getElem?_eq_some_iff.1 hn
  have hincrement : (r.increment className slot).2 =
      r.modifyArray className fun all => all.set slot (satAdd hits[slot] 1) := by
    have harray : r.array className = hits := by simp [array, h]
    simp [increment, store, harray, hslot]
  have hbump : Probe.bumpAll [slot] hits = hits.modify (Probe.place slot) (Probe.bump .count) := rfl
  rw [hincrement, modifyArray_inj h, hbump]
  by_cases hplace : slot ≤ 0x7fffffff
  · have hself : Probe.place slot = slot := Nat.min_eq_left hplace
    rw [hself, List.modify_eq_set, hn, Option.getD_some]
    refine Iff.trans ⟨fun heq => ?_, fun heq => by rw [heq]⟩
      ((Probe.bump_eq_satAdd hits[slot]).trans (iff_and_self.2 fun _ => hplace))
    have := congrArg (fun hits : List UInt32 => hits[slot]?) heq
    simpa [hslot] using this
  · -- The probe counts at the greatest integer, which is another slot.
    have hother : Probe.place slot = 0x7fffffff := Nat.min_eq_right (by omega)
    refine iff_of_false (fun heq => ?_) fun h => hplace h.1
    have hlast : 0x7fffffff < hits.length := by omega
    have := congrArg (fun hits : List UInt32 => hits[0x7fffffff]?) heq
    rw [hother] at this
    simp only [List.getElem?_modify_eq] at this
    rw [List.getElem?_set_ne (by omega), List.getElem?_eq_getElem hlast] at this
    exact Probe.bump_ne _ (by simpa using this)

end Registry

namespace Machine

/-- Straight code in a body takes as many steps as it has instructions. -/
theorem PassesAll.run_add {code rest : List Instruction} {σ τ : Store} (h : PassesAll code σ τ)
    (body : Body) (pos : Nat) (callers : List Frame)
    (hcode : body.code.drop pos = code ++ rest) (budget : Nat) :
    (σ.thread body pos callers).run (code.length + budget) =
      (τ.thread body (pos + code.length) callers).run budget := by
  induction h generalizing pos with
  | nil σ => simp
  | @cons insn code σ τ υ hinsn _ ih =>
      have hcurrent : (σ.thread body pos callers).frame.current? = some insn := by
        show body.code[pos]? = some insn
        rw [← List.head?_drop, hcode]
        rfl
      have hstep : (σ.thread body pos callers).step insn =
          .running (τ.thread body (pos + 1) callers) := by
        simp only [Thread.step, Store.thread, hinsn body pos]
        rfl
      have hrest : body.code.drop (pos + 1) = code ++ rest := by
        rw [← List.tail_drop, hcode]
        rfl
      have hlength : (insn :: code).length + budget = code.length + budget + 1 := by
        rw [List.length_cons]
        omega
      have hpos : pos + (insn :: code).length = pos + 1 + code.length := by
        rw [List.length_cons]
        omega
      rw [hlength, hpos, ← ih (pos + 1) hrest]
      generalize code.length + budget = n
      simp [Thread.run, hcurrent, hstep]

variable {σ : Store} {className : String} {hits : List UInt32} {array : UInt16}

/-- A probe in the code of a method that has the array. -/
theorem passesAll_code {slot : Nat} (hmade : σ.world.registry.lookup? className = some hits)
    (harray : σ.locals[array.toNat]? = some (.hits className)) (hslot : slot < hits.length) :
    PassesAll (Probe.code .count array slot) σ
      (σ.withRegistry (σ.world.registry.modifyArray className (Probe.bumpAll [slot]))) := by
  have hplace : Probe.place slot < hits.length := Nat.lt_of_le_of_lt (Probe.place_le slot) hslot
  have hread : (σ.world.registry.array className)[Probe.place slot]? =
      some hits[Probe.place slot] := by
    simp [Registry.array, hmade, hplace]
  have hstore : σ.world.registry.store className (Probe.place slot)
      (Probe.bump .count hits[Probe.place slot]) =
        (true, σ.world.registry.modifyArray className (Probe.bumpAll [slot])) := by
    have hlength : Probe.place slot < (σ.world.registry.array className).length := by
      simpa [Registry.array, hmade] using hplace
    rw [Registry.store, if_pos hlength, Prod.mk.injEq, Registry.modifyArray_inj hmade]
    refine ⟨rfl, ?_⟩
    show _ = hits.modify (Probe.place slot) (Probe.bump .count)
    rw [List.modify_eq_set, List.getElem?_eq_getElem hplace, Option.getD_some]
  refine .cons (passes_load harray) (.cons (passes_pushInt _) (.cons (passes_dup2 rfl)
    (.cons (passes_element rfl hread) (.cons passes_one (.cons (passes_add rfl)
      (.cons (passes_setElement (.inl rfl) rfl ?_) (.nil _)))))))
  simp only [Probe.bump] at hstore
  simp only [World.setElement, hstore, if_true]

/-- Probes one after the other. -/
theorem passesAll_codes (slots : List Nat)
    (hmade : σ.world.registry.lookup? className = some hits)
    (harray : σ.locals[array.toNat]? = some (.hits className))
    (hslots : ∀ slot ∈ slots, slot < hits.length) :
    PassesAll (slots.flatMap (Probe.code .count array)) σ
      (σ.withRegistry (σ.world.registry.modifyArray className (Probe.bumpAll slots))) := by
  induction slots generalizing σ hits with
  | nil =>
      rw [Registry.modifyArray_eq_self hmade rfl]
      exact .nil σ
  | cons slot rest ih =>
      obtain ⟨hslot, hrest⟩ := List.forall_mem_cons.1 hslots
      have hfirst := passesAll_code hmade harray hslot
      have hmade' : (σ.world.registry.modifyArray className (Probe.bumpAll [slot])).lookup?
          className = some (Probe.bumpAll [slot] hits) := by
        rw [Registry.lookup?_modifyArray_self, hmade, Option.map_some]
      have hothers := ih
        (σ := σ.withRegistry (σ.world.registry.modifyArray className (Probe.bumpAll [slot])))
        hmade' harray fun s hs => by
          rw [Probe.length_bumpAll]
          exact hrest s hs
      simp only [Store.withRegistry, Registry.modifyArray_modifyArray] at hfirst hothers ⊢
      exact hfirst.append hothers

theorem length_flatMap_code (array : UInt16) (slots : List Nat) :
    (slots.flatMap (Probe.code .count array)).length = 7 * slots.length := by
  induction slots with
  | nil => rfl
  | cons slot rest ih =>
      rw [List.flatMap_cons, List.length_append, ih, List.length_cons]
      simp only [Probe.code, List.length_append, List.length_cons, List.length_nil]
      omega

/-- Probes change the array of their class alone: each counter is added to as often as it is probed,
and after the greatest integer it starts over at zero. A single probe does what `increment` does
just if its slot is an integer and its counter is less than the greatest one. -/
theorem run_probes {body : Body} {pos : Nat} {rest : List Instruction} (slots : List Nat)
    (callers : List Frame) (budget : Nat)
    (hmade : σ.world.registry.lookup? className = some hits)
    (harray : σ.locals[array.toNat]? = some (.hits className))
    (hslots : ∀ slot ∈ slots, slot < hits.length)
    (hcode : body.code.drop pos = slots.flatMap (Probe.code .count array) ++ rest) :
    (σ.thread body pos callers).run (7 * slots.length + budget) =
        ((σ.withRegistry
          (σ.world.registry.modifyArray className (Probe.bumpAll slots))).thread body
            (pos + 7 * slots.length) callers).run budget ∧
      (Probe.bumpAll slots hits).length = hits.length ∧
      (∀ i n, hits[i]? = some n → ∃ m, (Probe.bumpAll slots hits)[i]? = some m ∧
        m.toNat = Probe.turned n.toNat (slots.countP fun slot => Probe.place slot = i) ∧
        (n ≠ 0 → (m = 0 ↔ 0 < slots.countP (fun slot => Probe.place slot = i) ∧
          0x80000000 ∣ min n.toNat 0x7fffffff +
            slots.countP fun slot => Probe.place slot = i))) ∧
      ∀ slot n, hits[slot]? = some n →
        (σ.world.registry.modifyArray className (Probe.bumpAll [slot]) =
            (σ.world.registry.increment className slot).2 ↔
          slot ≤ 0x7fffffff ∧ n.toNat < 0x7fffffff) := by
  refine ⟨?_, Probe.length_bumpAll slots hits, fun i n hn => ?_, fun slot n hn =>
    Registry.modifyArray_bumpAll_eq_increment hmade hn⟩
  · have hrun := (passesAll_codes slots hmade harray hslots).run_add body pos callers hcode budget
    rwa [length_flatMap_code] at hrun
  · have hturned := Probe.toNat_iterate_bump n (slots.countP fun slot => Probe.place slot = i)
    refine ⟨_, by rw [Probe.getElem?_bumpAll, hn, Option.map_some], hturned, fun hne => ?_⟩
    rw [← UInt32.toNat_inj, hturned, UInt32.toNat_zero, Probe.turned_eq_zero]
    have hzero : n.toNat ≠ 0 := fun h => hne (UInt32.toNat_inj.1 h)
    simp only [hzero, and_false, false_or]

end Machine

/-! ## A counter at the greatest integer -/

namespace Full

/-- An array with one counter, which holds the greatest integer. -/
def registry : Registry :=
  (((({} : Registry).declare "demo/Full" 1).request "demo/Full").store "demo/Full" 0 0x7fffffff).2

/-- A frame that has the array in its first variable. -/
def store : Machine.Store where
  stack := []
  locals := [.hits "demo/Full"]
  world :=
    { registry
      cls :=
        { name := "demo/Full"
          superName := some "java/lang/Object"
          access := ⟨0x21⟩
          major := 52
          sourceFile := none
          sourceDebug := none
          fields := []
          methods := [] } }

/-- So many probes of the counter. -/
def body (times : Nat) : Body :=
  .ofParts ((List.replicate times 0).flatMap (Probe.code .count 0) ++ [.simple .returnVoid]) [] 4 1

end Full

/-- A probe sets the counter to zero, where `increment` goes on. -/
theorem Machine.startsOver_full :
    Full.registry.lookup? "demo/Full" = some [0x7fffffff] ∧
      ((Full.store.thread (Full.body 1) 0 []).run 8).result = .ok none ∧
      ((Full.store.thread (Full.body 1) 0 []).run 8).world.registry.lookup? "demo/Full" =
        some [0] ∧
      (Full.registry.increment "demo/Full" 0).2.lookup? "demo/Full" = some [0x80000000] := by
  refine ⟨rfl, ?_, ?_, rfl⟩ <;> with_unfolding_all rfl

/-- The second of two probes counts from zero. -/
theorem Machine.run_probes_full :
    Full.registry.lookup? "demo/Full" = some [0x7fffffff] ∧
      (Full.body 2).code.drop 0 =
        [0, 0].flatMap (Probe.code .count 0) ++ [.simple .returnVoid] ∧
      ((Full.store.thread (Full.body 2) 0 []).run 15).world.registry.lookup? "demo/Full" =
        some [1] := by
  have hmade : Full.store.world.registry.lookup? "demo/Full" = some [0x7fffffff] := rfl
  have harray : Full.store.locals[(0 : UInt16).toNat]? = some (.hits "demo/Full") := rfl
  have hcode : (Full.body 2).code.drop 0 =
      [0, 0].flatMap (Probe.code .count 0) ++ [.simple .returnVoid] := rfl
  refine ⟨hmade, hcode, ?_⟩
  obtain ⟨hrun, -⟩ := run_probes [0, 0] [] 1 hmade harray (by simp) hcode
  rw [show 15 = 7 * [0, 0].length + 1 from rfl, hrun]
  with_unfolding_all rfl

end BytecodeCoverage
