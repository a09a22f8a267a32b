import BytecodeCoverage.Proofs.SortedMap
import BytecodeCoverage.Registry.Basic

/-!
# Tallies

The tally of a class is what the registry tells about it: its counters and its trace.  Counters
that have not been made yet are told as zeros, so making them changes nothing; a trace is told
only once it has been made.

A registry is regular if everything that has been made is as long as was declared, and the cache
tells the truth.  Whatever is counted for one class keeps the registry regular and touches no
other class (`Registry.Counted`).

**Main definitions.**
* `Tally`, `Registry.tally`: what is told about a class.
* `Registry.Regular`: the invariant of the registry.
* `Registry.Counted`: what stays when something is counted for a class.
-/

namespace BytecodeCoverage

/-- The counters and the trace of a class. -/
structure Tally where
  counts : List UInt32
  trace : Option (List Bool)
  deriving DecidableEq

namespace Tally

/-- The trace is made with so many flags, unless there is one. -/
def traceOn (t : Tally) (slots : Nat) : Tally :=
  { t with trace := some (t.trace.getD (List.replicate slots false)) }

/-- A counter is replaced. -/
def setCount (t : Tally) (slot : Nat) (n : UInt32) : Tally :=
  { t with counts := t.counts.set slot n }

/-- A flag of the trace is set. -/
def mark (t : Tally) (slot : Nat) : Tally :=
  { t with trace := t.trace.map fun mask => mask.set slot true }

end Tally

namespace Registry

/-- What the registry tells about a class. -/
def tally (r : Registry) (className : String) : Tally where
  counts := (r.counters? className).getD []
  trace := r.tracker.mask? className

/-- What is made is as long as declared, and a filled place of the cache has the array of the class
it names. -/
structure Regular (r : Registry) : Prop where
  made : ∀ className hits, r.lookup? className = some hits →
    r.slotCount? className = some hits.length
  traced : ∀ className mask, r.tracker.mask? className = some mask →
    r.slotCount? className = some mask.length
  cached : ∀ place e, r.cache.get? place = some e →
    e.array = e.name.text ∧ (r.lookup? e.array).isSome

/-- The second registry comes from the first by counting for a class. -/
structure Counted (className : String) (r r' : Registry) : Prop where
  regular : r'.Regular
  layouts : r'.layouts = r.layouts
  archive : r'.tracker.archive = r.tracker.archive
  lookups : ∀ other, other ≠ className → r'.lookup? other = r.lookup? other
  traces : ∀ other, other ≠ className → r'.tracker.mask? other = r.tracker.mask? other
  made : (r.lookup? className).isSome → (r'.lookup? className).isSome
  masked : (r.tracker.mask? className).isSome → (r'.tracker.mask? className).isSome

namespace Counted

variable {className : String} {r r₁ r₂ : Registry}

theorem refl (h : r.Regular) : Counted className r r where
  regular := h
  layouts := rfl
  archive := rfl
  lookups _ _ := rfl
  traces _ _ := rfl
  made h := h
  masked h := h

theorem trans (h₁ : Counted className r r₁) (h₂ : Counted className r₁ r₂) :
    Counted className r r₂ where
  regular := h₂.regular
  layouts := h₂.layouts.trans h₁.layouts
  archive := h₂.archive.trans h₁.archive
  lookups other hother := (h₂.lookups other hother).trans (h₁.lookups other hother)
  traces other hother := (h₂.traces other hother).trans (h₁.traces other hother)
  made h := h₂.made (h₁.made h)
  masked h := h₂.masked (h₁.masked h)

theorem slotCount? (h : Counted className r r₁) (other : String) :
    r₁.slotCount? other = r.slotCount? other := by
  rw [Registry.slotCount?, h.layouts]
  rfl

/-- Nothing is told anew about another class. -/
theorem tally_other (h : Counted className r r₁) {other : String} (hother : other ≠ className) :
    r₁.tally other = r.tally other := by
  simp only [tally, counters?, h.lookups other hother, h.slotCount? other, h.traces other hother]

end Counted

/-- The counters of a declared class are those that are told. -/
theorem counters?_eq_some {className : String} {r : Registry} {slots : Nat}
    (h : r.slotCount? className = some slots) :
    r.counters? className = some (r.tally className).counts := by
  cases hmade : r.lookup? className <;> simp [tally, counters?, hmade, h]

/-- Nothing has been made for any class. -/
structure Unused (r : Registry) : Prop where
  arrays : ∀ className, r.lookup? className = none
  masks : ∀ className, r.tracker.mask? className = none
  cache : ∀ place, r.cache.get? place = none

namespace Unused

variable {r : Registry}

theorem empty : ({} : Registry).Unused :=
  ⟨fun _ => rfl, fun _ => rfl, fun _ => rfl⟩

theorem declare (h : r.Unused) (className : String) (slots : Nat) :
    (r.declare className slots).Unused :=
  ⟨h.arrays, h.masks, h.cache⟩

theorem regular (h : r.Unused) : r.Regular where
  made className hits hhits := by
    rw [h.arrays] at hhits
    cases hhits
  traced className mask hmask := by
    rw [h.masks] at hmask
    cases hmask
  cached place e he := by
    rw [h.cache] at he
    cases he

/-- Of a class that was declared only, zeros and no trace are told. -/
theorem tally (h : r.Unused) {className : String} {slots : Nat}
    (hslots : r.slotCount? className = some slots) :
    r.tally className = { counts := List.replicate slots 0, trace := none } := by
  simp [Registry.tally, counters?, h.arrays, h.masks, hslots]

end Unused

theorem slotCount?_declare (r : Registry) (className other : String) (slots : Nat) :
    (r.declare className slots).slotCount? other =
      if other = className then some slots else r.slotCount? other := by
  by_cases h : other = className
  · simp [slotCount?, declare, h, SortedMap.get?_insert_self]
  · simp [slotCount?, declare, h, SortedMap.get?_insert_of_ne]

variable {className : String} {r : Registry} {slots : Nat}

theorem lookup?_insert (other : String) (hits : List UInt32) :
    ({ r with arrays := r.arrays.insert className hits } : Registry).lookup? other =
      if other = className then some hits else r.lookup? other := by
  by_cases h : other = className
  · simp [lookup?, h, SortedMap.get?_insert_self]
  · simp [lookup?, h, SortedMap.get?_insert_of_ne]

theorem lookup?_modifyArray (other : String) (f : List UInt32 → List UInt32) :
    (r.modifyArray className f).lookup? other =
      if other = className then (r.lookup? other).map f else r.lookup? other := by
  by_cases hother : other = className
  · obtain rfl := hother
    rw [if_pos rfl, lookup?_modifyArray_self]
  · rw [if_neg hother]
    unfold modifyArray
    split
    · rw [lookup?_insert, if_neg hother]
    · rfl

/-- Changing an array changes nothing else. -/
theorem modifyArray_frame (f : List UInt32 → List UInt32) :
    (r.modifyArray className f).layouts = r.layouts ∧
      (r.modifyArray className f).tracker = r.tracker ∧
      (r.modifyArray className f).cache = r.cache := by
  unfold modifyArray
  split <;> exact ⟨rfl, rfl, rfl⟩

/-- Giving a class an array of the declared length. -/
theorem counted_insert (h : r.Regular) (hslots : r.slotCount? className = some slots)
    {hits : List UInt32} (hlength : hits.length = slots) :
    Counted className r { r with arrays := r.arrays.insert className hits } where
  regular :=
    { made := by
        intro other found hfound
        rw [lookup?_insert] at hfound
        split at hfound
        · rename_i heq
          obtain rfl : hits = found := by simpa using hfound
          rw [heq, hlength]
          exact hslots
        · exact h.made other found hfound
      traced := h.traced
      cached := by
        intro place e he
        obtain ⟨harray, hmade⟩ := h.cached place e he
        refine ⟨harray, ?_⟩
        rw [lookup?_insert]
        split
        · rfl
        · exact hmade }
  layouts := rfl
  archive := rfl
  lookups other hother := by rw [lookup?_insert, if_neg hother]
  traces _ _ := rfl
  made _ := by simp [lookup?_insert]
  masked h := h

theorem tally_insert (hits : List UInt32) :
    ({ r with arrays := r.arrays.insert className hits } : Registry).tally className =
      { r.tally className with counts := hits } := by
  simp [tally, counters?, lookup?_insert]

/-! ## Making the array -/

theorem lookup?_request (r : Registry) (className other : String) :
    (r.request className).lookup? other =
      if other = className then
        some ((r.lookup? other).getD (List.replicate ((r.slotCount? other).getD 0) 0))
      else r.lookup? other := by
  unfold request
  by_cases hother : other = className
  · obtain rfl := hother
    rw [if_pos rfl]
    cases hmade : r.lookup? other with
    | some hits => exact hmade
    | none => rw [lookup?_insert, if_pos rfl, Option.getD_none]
  · rw [if_neg hother]
    cases r.lookup? className with
    | some hits => rfl
    | none => rw [lookup?_insert, if_neg hother]

/-- Making an array changes neither declarations nor the cache. -/
theorem request_frame (r : Registry) (className : String) :
    (r.request className).layouts = r.layouts ∧ (r.request className).cache = r.cache := by
  unfold request
  cases r.lookup? className <;> exact ⟨rfl, rfl⟩

theorem counted_request (h : r.Regular) (hslots : r.slotCount? className = some slots) :
    Counted className r (r.request className) := by
  unfold request
  cases hmade : r.lookup? className with
  | some hits => exact .refl h
  | none => exact counted_insert h hslots (by simp [hslots])

theorem tally_request (hslots : r.slotCount? className = some slots) :
    (r.request className).tally className = r.tally className := by
  unfold request
  cases hmade : r.lookup? className with
  | some hits => rfl
  | none =>
      rw [tally_insert]
      simp [tally, counters?, hmade, hslots]

theorem isSome_lookup?_request : ((r.request className).lookup? className).isSome := by
  rw [lookup?_request, if_pos rfl, Option.isSome_some]

/-- A name is found in the cache, or asked for directly; then it is cached if its place is free. -/
theorem requestCached_cases (r : Registry) (name : NameObject) :
    (∃ e, r.cache.get? name.place = some e ∧ e.name = name ∧
      r.requestCached name = (e.array, r)) ∨
    ∃ cache misses,
      r.requestCached name = (name.text, { r.request name.text with cache, misses }) ∧
      ∀ place e, cache.get? place = some e →
        r.cache.get? place = some e ∨ e = ⟨name, name.text⟩ := by
  unfold requestCached
  cases hentry : (r.cache.get? name.place).filter fun e => e.name = name with
  | some e =>
      obtain ⟨he, hname⟩ := Option.filter_eq_some_iff.1 hentry
      exact .inl ⟨e, he, of_decide_eq_true hname, by simp only [hentry]⟩
  | none =>
      -- Counting the miss changes nothing that the array depends on.
      have hmissed : ({ r with misses := r.misses + 1 } : Registry).request name.text =
          { r.request name.text with misses := r.misses + 1 } := by
        unfold request
        rw [show ({ r with misses := r.misses + 1 } : Registry).lookup? name.text =
          r.lookup? name.text from rfl]
        cases r.lookup? name.text <;> rfl
      simp only [hentry, hmissed, (r.request_frame name.text).2]
      exact .inr ⟨_, _, rfl, fun _ _ => SortedMap.get?_insert_getD⟩

/-- Asking by way of the cache gives the array of the class and counts nothing. -/
theorem requestCached_spec (h : r.Regular) (hslots : r.slotCount? className = some slots)
    (keeper : Nat) :
    ∃ r', r.requestCached ⟨className, keeper⟩ = (className, r') ∧ Counted className r r' ∧
      r'.tally className = r.tally className ∧ (r'.lookup? className).isSome := by
  obtain ⟨e, he, hname, heq⟩ | ⟨cache, misses, heq, hcache⟩ :=
    r.requestCached_cases ⟨className, keeper⟩
  · obtain ⟨harray, hmade⟩ := h.cached _ e he
    have harray' : e.array = className := by rw [harray, hname]
    exact ⟨r, by rw [heq, harray'], .refl h, rfl, harray' ▸ hmade⟩
  · have hcounted := counted_request h hslots
    have hmade : ((r.request className).lookup? className).isSome := isSome_lookup?_request
    refine ⟨_, heq, { hcounted with
      regular := { hcounted.regular with cached := fun place e he => ?_ } },
      tally_request hslots, hmade⟩
    obtain hold | rfl := hcache place e he
    · obtain ⟨harray, hmade⟩ := h.cached place e hold
      have hkept : ((r.request className).lookup? e.array).isSome := by
        rw [lookup?_request]
        split
        · rfl
        · exact hmade
      exact ⟨harray, hkept⟩
    · exact ⟨rfl, hmade⟩

/-! ## Making the trace -/

theorem mask?_insert (other : String) (mask : List Bool) :
    ({ r.tracker with masks := r.tracker.masks.insert className mask } : Tracker).mask? other =
      if other = className then some mask else r.tracker.mask? other := by
  by_cases h : other = className
  · simp [Tracker.mask?, h, SortedMap.get?_insert_self]
  · simp [Tracker.mask?, h, SortedMap.get?_insert_of_ne]

/-- Giving a class a trace of the declared length. -/
theorem counted_insertMask (h : r.Regular) (hslots : r.slotCount? className = some slots)
    {mask : List Bool} (hlength : mask.length = slots) :
    Counted className r
      { r with tracker := { r.tracker with masks := r.tracker.masks.insert className mask } } where
  regular :=
    { made := h.made
      traced := by
        intro other found hfound
        rw [mask?_insert] at hfound
        split at hfound
        · rename_i heq
          obtain rfl : mask = found := by simpa using hfound
          rw [heq, hlength]
          exact hslots
        · exact h.traced other found hfound
      cached := h.cached }
  layouts := rfl
  archive := rfl
  lookups _ _ := rfl
  traces other hother := by rw [mask?_insert, if_neg hother]
  made h := h
  masked _ := by simp [mask?_insert]

/-- Asking for the trace makes it. -/
theorem requestMask_spec (h : r.Regular) (hslots : r.slotCount? className = some slots) :
    Counted className r (r.requestMask className) ∧
      (r.requestMask className).tally className = (r.tally className).traceOn slots ∧
      ((r.requestMask className).tracker.mask? className).isSome := by
  unfold requestMask Tracker.request
  cases hmask : r.tracker.mask? className with
  | some mask =>
      refine ⟨⟨⟨h.made, h.traced, h.cached⟩, rfl, rfl, fun _ _ => rfl, fun _ _ => rfl, fun h => h,
        fun h => h⟩, ?_, by simp [hmask]⟩
      simp [tally, Tally.traceOn, hmask, counters?, lookup?, slotCount?]
  | none =>
      have hcounted := counted_insertMask h hslots
        (List.length_replicate : (List.replicate slots false).length = slots)
      simp only [hslots, Option.getD_some]
      refine ⟨hcounted, ?_, by simp [mask?_insert]⟩
      simp [tally, Tally.traceOn, hmask, counters?, lookup?, slotCount?, mask?_insert]

/-! ## Counting -/

/-- The array of a class is told as it is. -/
theorem counts_tally {hits : List UInt32} (hmade : r.lookup? className = some hits) :
    (r.tally className).counts = hits := by
  simp [tally, counters?, hmade]

/-- Writing to a slot that was declared. -/
theorem store_spec (h : r.Regular) (hslots : r.slotCount? className = some slots)
    (hmade : (r.lookup? className).isSome) {slot : Nat} (hslot : slot < slots) (n : UInt32) :
    ∃ r', r.store className slot n = (true, r') ∧ Counted className r r' ∧
      r'.tally className = (r.tally className).setCount slot n := by
  obtain ⟨hits, hhits⟩ := Option.isSome_iff_exists.1 hmade
  have hlength : hits.length = slots := by
    have := h.made className hits hhits
    rw [hslots] at this
    simpa using this.symm
  have harray : r.array className = hits := by simp [array, hhits]
  unfold store modifyArray
  rw [harray, if_pos (hlength ▸ hslot), hhits]
  refine ⟨_, rfl, counted_insert h hslots (by simpa using hlength), ?_⟩
  rw [tally_insert, Tally.setCount, counts_tally hhits]

/-- Setting a flag that was declared. -/
theorem traceSlot_spec (h : r.Regular) (hslots : r.slotCount? className = some slots)
    (hmask : (r.tracker.mask? className).isSome) {slot : Nat} (hslot : slot < slots) :
    ∃ r', r.traceSlot className slot = (true, r') ∧ Counted className r r' ∧
      r'.tally className = (r.tally className).mark slot := by
  obtain ⟨mask, hmask⟩ := Option.isSome_iff_exists.1 hmask
  have hlength : mask.length = slots := by
    have := h.traced className mask hmask
    rw [hslots] at this
    simpa using this.symm
  have hlt : slot < (r.tracker.mask className).length := by
    simpa [Tracker.mask, hmask, hlength] using hslot
  unfold traceSlot Tracker.set Tracker.modify
  rw [if_pos hlt, hmask]
  refine ⟨_, rfl, counted_insertMask h hslots (by simpa using hlength), ?_⟩
  simp [tally, Tally.mark, hmask, counters?, lookup?, slotCount?, mask?_insert]

end Registry

end BytecodeCoverage
