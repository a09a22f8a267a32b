import BytecodeCoverage.Proofs.Registry.Tally
import BytecodeCoverage.Proofs.SortedMap

/-!
# Lengths of arrays and masks

An array or a mask is given its length when it is first asked for, and keeps it.  So what is asked
for later on has a length that depends on nothing that is done with the registry in between, as
long as the class is not declared anew.

**Main definitions.**
* `Registry.hitsFor`, `Registry.traceFor`: the array and the mask of a class, on request.
* `Registry.Used`: what the use of a registry leaves alone.
* `Registry.Cleared`: what setting counters to zero leaves alone.

**Results.**
* `Registry.length_hitsFor`, `Registry.length_traceFor`: where the lengths come from.
-/

namespace BytecodeCoverage

namespace Registry

/-- The array of a class, which is made if there is none. -/
def hitsFor (r : Registry) (className : String) : List UInt32 :=
  (r.request className).array className

/-- The mask of a class, which is made if there is none. -/
def traceFor (r : Registry) (className : String) : List Bool :=
  (r.requestMask className).tracker.mask className

theorem length_hitsFor (r : Registry) (className : String) :
    (r.hitsFor className).length =
      ((r.lookup? className).map List.length).getD ((r.slotCount? className).getD 0) := by
  unfold hitsFor request array
  cases hmade : r.lookup? className with
  | some hits => simp [hmade]
  | none => simp [lookup?_insert]

theorem length_traceFor (r : Registry) (className : String) :
    (r.traceFor className).length =
      ((r.tracker.mask? className).map List.length).getD ((r.slotCount? className).getD 0) := by
  unfold traceFor requestMask Tracker.request Tracker.mask
  cases hmade : r.tracker.mask? className with
  | some mask => simp [hmade]
  | none => simp [mask?_insert]

/-- The second registry comes from the first by requests and writes. -/
structure Used (r r' : Registry) : Prop where
  layouts : r'.layouts = r.layouts
  hits : ∀ className, (r'.hitsFor className).length = (r.hitsFor className).length
  trace : ∀ className, (r'.traceFor className).length = (r.traceFor className).length

namespace Used

variable {r r₁ r₂ : Registry}

theorem refl (r : Registry) : Used r r :=
  ⟨rfl, fun _ => rfl, fun _ => rfl⟩

theorem trans (h₁ : Used r r₁) (h₂ : Used r₁ r₂) : Used r r₂ where
  layouts := h₂.layouts.trans h₁.layouts
  hits className := (h₂.hits className).trans (h₁.hits className)
  trace className := (h₂.trace className).trans (h₁.trace className)

theorem slotCount? (h : Used r r₁) (className : String) :
    r₁.slotCount? className = r.slotCount? className := by
  rw [Registry.slotCount?, h.layouts]
  rfl

/-- Whatever leaves all lengths alone is use. -/
theorem of_lengths (hlayouts : r₁.layouts = r.layouts)
    (harrays : ∀ className,
      (r₁.lookup? className).map List.length = (r.lookup? className).map List.length)
    (hmasks : ∀ className,
      (r₁.tracker.mask? className).map List.length = (r.tracker.mask? className).map List.length) :
    Used r r₁ where
  layouts := hlayouts
  hits className := by
    rw [length_hitsFor, length_hitsFor, harrays, Registry.slotCount?, Registry.slotCount?, hlayouts]
  trace className := by
    rw [length_traceFor, length_traceFor, hmasks, Registry.slotCount?, Registry.slotCount?, hlayouts]

end Used

variable (r : Registry)

/-! ## Requests -/

theorem used_request (className : String) : Used r (r.request className) := by
  unfold request
  cases hmade : r.lookup? className with
  | some hits => exact .refl r
  | none =>
      refine ⟨rfl, fun other => ?_, fun other => ?_⟩
      · rw [length_hitsFor, length_hitsFor, lookup?_insert]
        by_cases hother : other = className
        · subst hother
          rw [if_pos rfl, hmade]
          exact List.length_replicate
        · rw [if_neg hother]
          rfl
      · rw [length_traceFor, length_traceFor]
        rfl

theorem used_requestMask (className : String) : Used r (r.requestMask className) := by
  unfold requestMask Tracker.request
  cases hmade : r.tracker.mask? className with
  | some mask => exact .refl r
  | none =>
      refine ⟨rfl, fun other => ?_, fun other => ?_⟩
      · rw [length_hitsFor, length_hitsFor]
        rfl
      · rw [length_traceFor, length_traceFor, mask?_insert]
        by_cases hother : other = className
        · subst hother
          rw [if_pos rfl, hmade]
          exact List.length_replicate
        · rw [if_neg hother]
          rfl

theorem used_requestCached (name : NameObject) : Used r (r.requestCached name).2 := by
  obtain ⟨e, -, -, heq⟩ | ⟨cache, misses, heq, -⟩ := r.requestCached_cases name <;> rw [heq]
  · exact .refl r
  · -- Neither counting the miss nor filling the cache touches an array.
    exact (used_request r name.text).trans (.of_lengths rfl (fun _ => rfl) fun _ => rfl)

/-! ## Writes -/

theorem used_modifyArray (className : String) {f : List UInt32 → List UInt32}
    (hf : ∀ hits, (f hits).length = hits.length) : Used r (r.modifyArray className f) := by
  obtain ⟨hlayouts, htracker, -⟩ := @modifyArray_frame className r f
  refine .of_lengths hlayouts (fun other => ?_) fun _ => by rw [htracker]
  rw [lookup?_modifyArray]
  split
  · rw [Option.map_map]
    exact congrArg (Option.map · (r.lookup? other)) (funext hf)
  · rfl

theorem used_store (className : String) (slot : Nat) (n : UInt32) :
    Used r (r.store className slot n).2 := by
  unfold store
  split
  · exact r.used_modifyArray className fun hits => List.length_set
  · exact .refl r

theorem used_traceSlot (className : String) (slot : Nat) :
    Used r (r.traceSlot className slot).2 := by
  unfold traceSlot Tracker.set Tracker.modify
  split
  · cases hmade : r.tracker.mask? className with
    | none => exact .refl r
    | some mask =>
        refine .of_lengths rfl (fun _ => rfl) fun other => ?_
        rw [mask?_insert]
        by_cases hother : other = className
        · subst hother
          rw [if_pos rfl, hmade]
          exact congrArg some List.length_set
        · rw [if_neg hother]
  · exact .refl r

/-! ## Setting counters to zero -/

/-- In the second registry some counters have been set to zero. -/
structure Cleared (r r' : Registry) : Prop where
  arrays : ∀ className, r'.lookup? className = r.lookup? className ∨
    r'.lookup? className = (r.lookup? className).map zeroed
  layouts : r'.layouts = r.layouts
  tracker : r'.tracker = r.tracker
  cache : r'.cache = r.cache

theorem cleared_reset (r : Registry) : r.Cleared r.reset where
  arrays _ := .inr (SortedMap.get?_mapValues _ _ _)
  layouts := rfl
  tracker := rfl
  cache := rfl

theorem cleared_resetClass (r : Registry) (className : String) :
    r.Cleared (r.resetClass className) where
  arrays other := by
    rw [resetClass, lookup?_modifyArray]
    split
    · exact .inr rfl
    · exact .inl rfl
  layouts := (modifyArray_frame zeroed).1
  tracker := (modifyArray_frame zeroed).2.1
  cache := (modifyArray_frame zeroed).2.2

/-- No array gets shorter or longer. -/
theorem Cleared.length_lookup? {r r' : Registry} (h : r.Cleared r') (className : String) :
    (r'.lookup? className).map List.length = (r.lookup? className).map List.length := by
  rcases h.arrays className with heq | heq
  · rw [heq]
  · rw [heq, Option.map_map]
    exact congrArg (Option.map · (r.lookup? className)) (funext fun _ => List.length_map _)

/-- Setting counters to zero is use. -/
theorem Cleared.used {r r' : Registry} (h : r.Cleared r') : Used r r' :=
  .of_lengths h.layouts h.length_lookup? fun className => by rw [h.tracker]

/-! ## Declarations -/

/-- Declaring a class anew matters only if its array has not been made. -/
theorem length_hitsFor_declare (className other : String) (slots : Nat) :
    ((r.declare className slots).hitsFor other).length =
      if other = className then ((r.lookup? other).map List.length).getD slots
      else (r.hitsFor other).length := by
  rw [length_hitsFor, length_hitsFor, slotCount?_declare]
  split <;> rfl

theorem length_traceFor_declare (className other : String) (slots : Nat) :
    ((r.declare className slots).traceFor other).length =
      if other = className then ((r.tracker.mask? other).map List.length).getD slots
      else (r.traceFor other).length := by
  rw [length_traceFor, length_traceFor, slotCount?_declare]
  split <;> rfl

end Registry

end BytecodeCoverage
