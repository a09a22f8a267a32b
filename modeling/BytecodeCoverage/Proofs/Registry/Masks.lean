import BytecodeCoverage.Proofs.Registry.Tally
import BytecodeCoverage.Proofs.SortedMap
import Mathlib.Data.List.Sort

/-!
# Masks at the start and the end of a test

When a test starts or ends, the flags of all masks are cleared, and when it ends the flags that were
set are read out first.  The counters, the declared slots and the cache stay as they are.

**Main definitions.**
* `TestTrace.Lists`: the slots of a class in a trace.
* `Registry.atBoundary`: the registry after a test has started or ended.

**Results.**
* `Tracker.mem_setFrom`, `Tracker.pairwise_setFrom`: the flags that are read out of a mask.
* `Tracker.lists_endTest`: the trace that ending a test gives.
* `Registry.Regular.atBoundary`: the invariant of the registry is kept.
-/

namespace BytecodeCoverage

/-- A trace lists these slots for a class.  A class without slots is left out. -/
def TestTrace.Lists (trace : TestTrace) (className : String) (slots : List Nat) : Prop :=
  trace.classes.get? className = if slots = [] then none else some slots

namespace Tracker

variable {slot i : Nat} {mask : List Bool}

/-- The places that are read out of a mask whose first flag has the place `slot`. -/
theorem mem_setFrom : i ∈ setFrom slot mask ↔ ∃ k, mask[k]? = some true ∧ i = slot + k := by
  induction mask generalizing slot with
  | nil => simp [setFrom]
  | cons flag rest ih =>
      have hrest : i ∈ setFrom (slot + 1) rest ↔
          ∃ k, (flag :: rest)[k + 1]? = some true ∧ i = slot + (k + 1) := by
        simp only [ih, List.getElem?_cons_succ, Nat.add_comm, Nat.add_left_comm]
      rw [← Nat.or_exists_add_one, ← hrest]
      cases flag <;> simp [setFrom]

/-- The places that are read out are those of the flags that are set. -/
theorem mem_setFrom_zero : i ∈ setFrom 0 mask ↔ mask[i]? = some true := by
  simp [mem_setFrom]

/-- The places are read out in ascending order. -/
theorem pairwise_setFrom (slot : Nat) (mask : List Bool) :
    (setFrom slot mask).Pairwise (· < ·) := by
  induction mask generalizing slot with
  | nil => exact .nil
  | cons flag rest ih =>
      cases flag with
      | false => exact ih (slot + 1)
      | true =>
          refine List.pairwise_cons.2 ⟨fun i hi => ?_, ih (slot + 1)⟩
          obtain ⟨k, -, rfl⟩ := mem_setFrom.1 hi
          omega

/-- The trace that ending a test gives lists the flags that are set. -/
theorem lists_endTest (tracker : Tracker) (name className : String) :
    (tracker.endTest name).1.Lists className (setFrom 0 (tracker.mask className)) := by
  have hnodup : (((tracker.masks.entries.map fun e => (e.1, setFrom 0 e.2)).filter
      fun e => !e.2.isEmpty).map Prod.fst).Nodup := by
    refine List.Nodup.sublist (List.filter_sublist.map _) ?_
    rw [List.map_map]
    exact tracker.masks.nodup_keys
  have hread : ∀ slots, tracker.read.get? className = some slots ↔
      (∃ mask, tracker.mask? className = some mask ∧ setFrom 0 mask = slots) ∧ slots ≠ [] := by
    intro slots
    simp [read, SortedMap.get?_ofList_eq_some hnodup, SortedMap.mem_entries, mask?]
  show tracker.read.get? className = _
  cases hmask : tracker.mask? className with
  | none => simp [Option.eq_none_iff_forall_ne_some, hread, Tracker.mask, hmask, setFrom]
  | some mask =>
      rw [Tracker.mask, hmask, Option.getD_some]
      split
      · rename_i hnone
        simp [Option.eq_none_iff_forall_ne_some, hread, hmask, hnone]
      · rename_i hsome
        exact (hread _).2 ⟨⟨mask, hmask, rfl⟩, hsome⟩

/-- No flag is set in a mask that has been cleared. -/
theorem eq_false_of_mem_cleared {flag : Bool} (h : flag ∈ cleared mask) : flag = false := by
  obtain ⟨_, -, rfl⟩ := List.mem_map.1 h
  rfl

end Tracker

namespace Registry

/-- The registry after a test has started or ended, with the traces of the tests that have ended. -/
def atBoundary (r : Registry) (archive : List TestTrace) : Registry :=
  { r with tracker := { r.tracker.clearAll with archive } }

variable {r : Registry} {archive : List TestTrace} {className : String}

theorem mask?_atBoundary :
    (r.atBoundary archive).tracker.mask? className =
      (r.tracker.mask? className).map Tracker.cleared :=
  SortedMap.get?_mapValues r.tracker.masks _ className

/-- Every mask is clear. -/
theorem eq_false_of_mem_mask {mask : List Bool}
    (h : (r.atBoundary archive).tracker.mask? className = some mask) :
    ∀ flag ∈ mask, flag = false := by
  rw [mask?_atBoundary] at h
  obtain ⟨old, -, rfl⟩ := Option.map_eq_some_iff.1 h
  exact fun flag => Tracker.eq_false_of_mem_cleared

/-- Masks keep their length when they are cleared. -/
theorem Regular.atBoundary (h : r.Regular) : (r.atBoundary archive).Regular where
  made := h.made
  traced className mask hmask := by
    rw [mask?_atBoundary] at hmask
    obtain ⟨old, hold, rfl⟩ := Option.map_eq_some_iff.1 hmask
    rw [Tracker.cleared, List.length_map]
    exact h.traced className old hold
  cached := h.cached

end Registry

end BytecodeCoverage
