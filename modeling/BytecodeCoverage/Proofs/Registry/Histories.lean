import BytecodeCoverage.Proofs.Registry.Usage

/-!
# Histories of a registry

What becomes of a registry is told by its history: declarations, requests, writes to arrays that
have been handed out, and resets.  A history is listed with the latest use in front, so that
everything behind a use is what happened before it.  A write names its array by the number of the
request that handed it out.

An array is made at the first request for its class and stays.  So its length is what was declared
by then, and its counters are what has been written since the last reset, whichever request the
writes refer to.

**Main definitions.**
* `Registry.Use`: the uses of a registry; `Registry.after` is what becomes of a new one.
* `Registry.requested`, `Registry.declared?`, `Registry.slotsGiven`, `Registry.writes`,
  `Registry.told?`: what a history says about a class.
* `Registry.Follows`: a registry does what its history says.

**Results.**
* `Registry.follows_after`: every registry follows its history.
* `Registry.told?_cons_of_ne`: what is told about a class is changed by no use of another one.
-/

namespace BytecodeCoverage

namespace Registry

/-- What is written to an array. -/
inductive Write
  | store (slot : Nat) (n : UInt32)
  | increment (slot : Nat)

/-- The counters after a write. A slot that the array does not have is passed over. -/
def Write.apply (hits : List UInt32) : Write → List UInt32
  | .store slot n => hits.set slot n
  | .increment slot => hits.set slot (satAdd (hits[slot]?.getD 0) 1)

/-- A use of a registry. For requests by way of the cache every class has one name. Looking at
counters changes nothing, so it is not among the uses. -/
inductive Use
  | declare (className : String) (slots : Nat)
  | request (className : String)
  | requestCached (className : String)
  | write (number : Nat) (w : Write)
  | reset

/-! ## What a history says -/

/-- The class that a use asks for. -/
def Use.asked : Use → List String
  | .request className | .requestCached className => [className]
  | _ => []

/-- The classes that have been asked for, one for each request. -/
def requested : List Use → List String
  | [] => []
  | use :: past => requested past ++ use.asked

/-- The number of slots that a use declares for a class. -/
def Use.declares? (className : String) : Use → Option Nat
  | .declare other slots => if other = className then some slots else none
  | _ => none

/-- The number of slots declared last for a class. -/
def declared? (className : String) (past : List Use) : Option Nat :=
  past.findSome? (Use.declares? className)

/-- The number of slots that had been declared when a class was asked for first. -/
def slotsGiven (className : String) : List Use → Nat
  | [] => 0
  | _ :: past =>
      if className ∈ requested past then slotsGiven className past
      else (declared? className past).getD 0

/-- What has been written to the array of a class since the last reset. -/
def writes (className : String) : List Use → List Write
  | [] => []
  | .reset :: _ => []
  | .write number w :: past =>
      if (requested past)[number]? = some className then writes className past ++ [w]
      else writes className past
  | _ :: past => writes className past

/-- The counters of a class that has been asked for. -/
def counts (className : String) (past : List Use) : List UInt32 :=
  (writes className past).foldl Write.apply (List.replicate (slotsGiven className past) 0)

/-- What is told about a class: its counters, zeros if it was only declared, nothing if it is not
known. -/
def told? (className : String) (past : List Use) : Option (List UInt32) :=
  if className ∈ requested past then some (counts className past)
  else (declared? className past).map fun slots => List.replicate slots 0

/-- The class that a use is about; a reset is about all of them. -/
def Use.concerns? (past : List Use) : Use → Option String
  | .declare className _ | .request className | .requestCached className => some className
  | .write number _ => (requested past)[number]?
  | .reset => none

/-- What a use does to the counters of a class that has been asked for. -/
def Use.effect (past : List Use) (className : String) (hits : List UInt32) : Use → List UInt32
  | .write number w => if (requested past)[number]? = some className then w.apply hits else hits
  | .reset => zeroed hits
  | _ => hits

section Spec

variable {className : String} {past : List Use} {step : Use}

@[simp] theorem length_apply (hits : List UInt32) (w : Write) :
    (w.apply hits).length = hits.length := by
  cases w <;> exact List.length_set

theorem length_foldl_apply (ws : List Write) (hits : List UInt32) :
    (ws.foldl Write.apply hits).length = hits.length := by
  induction ws generalizing hits with
  | nil => rfl
  | cons w ws ih => rw [List.foldl_cons, ih, length_apply]

@[simp] theorem length_counts_eq_slotsGiven :
    (counts className past).length = slotsGiven className past := by
  rw [counts, length_foldl_apply, List.length_replicate]

theorem declared?_cons :
    declared? className (step :: past) =
      (step.declares? className).or (declared? className past) := by
  rw [declared?, List.findSome?_cons]
  cases step.declares? className <;> rfl

theorem slotsGiven_cons_of_mem (h : className ∈ requested past) :
    slotsGiven className (step :: past) = slotsGiven className past :=
  if_pos h

theorem slotsGiven_cons_of_notMem (h : className ∉ requested past) :
    slotsGiven className (step :: past) = (declared? className past).getD 0 :=
  if_neg h

theorem mem_requested_cons (h : className ∈ requested past) :
    className ∈ requested (step :: past) :=
  List.mem_append_left _ h

/-- Nothing has been written to an array that nobody has asked for. -/
theorem writes_eq_nil (h : className ∉ requested past) : writes className past = [] := by
  induction past with
  | nil => rfl
  | cons step past ih =>
      have hbefore : className ∉ requested past := fun hmem => h (mem_requested_cons hmem)
      cases step with
      | reset => rfl
      | write number w =>
          have hother : (requested past)[number]? ≠ some className := fun hnumber =>
            hbefore (List.mem_of_getElem? hnumber)
          rw [writes, if_neg hother]
          exact ih hbefore
      | _ => exact ih hbefore

/-- Setting counters to zero makes them what they were at first. -/
theorem zeroed_counts :
    zeroed (counts className past) = List.replicate (slotsGiven className past) 0 := by
  rw [zeroed, List.map_const', length_counts_eq_slotsGiven]

/-- What one use does to the counters. -/
theorem counts_cons_of_mem (h : className ∈ requested past) :
    counts className (step :: past) = step.effect past className (counts className past) := by
  cases step with
  | reset =>
      rw [Use.effect, zeroed_counts, counts, slotsGiven_cons_of_mem h]
      rfl
  | write number w =>
      rw [Use.effect, counts, slotsGiven_cons_of_mem h, writes]
      split
      · rw [List.foldl_append]
        rfl
      · rfl
  | _ =>
      rw [counts, slotsGiven_cons_of_mem h]
      rfl

/-- At first the counters are zero. -/
theorem counts_cons_of_notMem (h : className ∉ requested past) (hstep : className ∈ step.asked) :
    counts className (step :: past) = List.replicate ((declared? className past).getD 0) 0 := by
  have hwrites : writes className (step :: past) = writes className past := by
    cases step with
    | request | requestCached => rfl
    | _ => cases hstep
  rw [counts, slotsGiven_cons_of_notMem h, hwrites, writes_eq_nil h]
  rfl

/-- Later uses do not change the number of slots that a class was given. -/
theorem slotsGiven_append (h : className ∈ requested past) (later : List Use) :
    className ∈ requested (later ++ past) ∧
      slotsGiven className (later ++ past) = slotsGiven className past := by
  induction later with
  | nil => exact ⟨h, rfl⟩
  | cons step later ih => exact ⟨mem_requested_cons ih.1, (slotsGiven_cons_of_mem ih.1).trans ih.2⟩

/-- What is told about a class is changed by no use of another one. -/
theorem told?_cons_of_ne (hreset : step ≠ .reset) (h : step.concerns? past ≠ some className) :
    told? className (step :: past) = told? className past := by
  have hasked : className ∉ step.asked := by
    cases step with
    | request other | requestCached other =>
        exact fun hmem => h (congrArg some (List.mem_singleton.1 hmem).symm)
    | _ => exact List.not_mem_nil
  have hdeclared : declared? className (step :: past) = declared? className past := by
    cases step with
    | declare other slots =>
        rw [declared?_cons, Use.declares?, if_neg fun heq => h (congrArg some heq), Option.none_or]
    | _ => rfl
  have hmem : className ∈ requested (step :: past) ↔ className ∈ requested past := by
    rw [requested, List.mem_append, or_iff_left hasked]
  by_cases hpast : className ∈ requested past
  · have hcounts : step.effect past className (counts className past) = counts className past := by
      cases step with
      | reset => exact absurd rfl hreset
      | write number w => exact if_neg h
      | _ => rfl
    rw [told?, told?, if_pos (hmem.2 hpast), if_pos hpast, counts_cons_of_mem hpast, hcounts]
  · rw [told?, told?, if_neg (mt hmem.1 hpast), if_neg hpast, hdeclared]

theorem Use.declares?_of_asked (h : step.asked = [className]) (other : String) :
    step.declares? other = none := by
  cases step with
  | request | requestCached => rfl
  | _ => cases h

theorem Use.effect_of_asked (h : step.asked = [className]) (other : String) (hits : List UInt32) :
    step.effect past other hits = hits := by
  cases step with
  | request | requestCached => rfl
  | _ => cases h

end Spec

/-! ## A registry in use -/

/-- Something is written to the array of a class. -/
def write (r : Registry) (className : String) : Write → Registry
  | .store slot n => (r.store className slot n).2
  | .increment slot => (r.increment className slot).2

/-- A registry is used. Beside it stand the arrays that have been handed out, each of them known by
the name of its class. -/
def use (keeper : String → Nat) (s : Registry × List String) : Use → Registry × List String
  | .declare className slots => (s.1.declare className slots, s.2)
  | .request className => (s.1.request className, s.2 ++ [className])
  | .requestCached className =>
      let (array, r) := s.1.requestCached ⟨className, keeper className⟩
      (r, s.2 ++ [array])
  | .write number w =>
      match s.2[number]? with
      | some array => (s.1.write array w, s.2)
      | none => s
  | .reset => (s.1.reset, s.2)

/-- What becomes of a new registry. -/
def after (keeper : String → Nat) : List Use → Registry × List String
  | [] => ({}, [])
  | step :: past => use keeper (after keeper past) step

/-- A registry does what its history says: the array of a class has been made if the class has been
asked for, the counters are those that have been written, and whoever asks for an array gets the one
of the class. -/
structure Follows (past : List Use) (s : Registry × List String) : Prop where
  declared : ∀ className, s.1.slotCount? className = declared? className past
  made : ∀ className, s.1.lookup? className =
    if className ∈ requested past then some (counts className past) else none
  cached : ∀ place e, s.1.cache.get? place = some e →
    e.array = e.name.text ∧ e.array ∈ requested past
  handed : s.2 = requested past

/-! ## One use -/

section Uses

variable {r : Registry}

theorem lookup?_store (className other : String) (slot : Nat) (n : UInt32) :
    (r.store className slot n).2.lookup? other =
      if other = className then (r.lookup? other).map fun hits => hits.set slot n
      else r.lookup? other := by
  unfold store
  split
  · exact lookup?_modifyArray other _
  · rename_i hslot
    by_cases hother : other = className
    · obtain rfl := hother
      rw [if_pos rfl]
      cases hmade : r.lookup? other with
      | none => rfl
      | some hits =>
          rw [array, hmade, Option.getD_some, Nat.not_lt] at hslot
          rw [Option.map_some, List.set_eq_of_length_le hslot]
    · rw [if_neg hother]

theorem lookup?_write (className other : String) (w : Write) :
    (r.write className w).lookup? other =
      if other = className then (r.lookup? other).map (Write.apply · w) else r.lookup? other := by
  cases w with
  | store slot n => exact lookup?_store className other slot n
  | increment slot =>
      refine (lookup?_store className other slot _).trans ?_
      split
      · rename_i heq
        obtain rfl := heq
        rw [array]
        cases r.lookup? other <;> rfl
      · rfl

theorem write_frame (className : String) (w : Write) :
    (r.write className w).layouts = r.layouts ∧ (r.write className w).cache = r.cache := by
  have hstore : ∀ slot n, (r.store className slot n).2.layouts = r.layouts ∧
      (r.store className slot n).2.cache = r.cache := by
    intro slot n
    unfold store
    split
    · exact (modifyArray_frame _).imp_right And.right
    · exact ⟨rfl, rfl⟩
  cases w with
  | store slot n => exact hstore slot n
  | increment slot => exact hstore slot _

end Uses

/-! ## Whole histories -/

namespace Follows

variable {keeper : String → Nat} {past : List Use} {s : Registry × List String}

/-- A use that asks for nothing. -/
theorem step (h : Follows past s) {step : Use} (hasked : step.asked = [])
    {s' : Registry × List String}
    (hslots : ∀ className, s'.1.slotCount? className =
      (step.declares? className).or (s.1.slotCount? className))
    (hlookup : ∀ className, s'.1.lookup? className =
      (s.1.lookup? className).map fun hits => step.effect past className hits)
    (hcache : s'.1.cache = s.1.cache) (hhanded : s'.2 = s.2) : Follows (step :: past) s' := by
  have hrequested : requested (step :: past) = requested past := by
    rw [requested, hasked, List.append_nil]
  constructor
  · intro className
    rw [hslots, h.declared, declared?_cons]
  · intro className
    rw [hlookup, h.made, hrequested]
    split
    · rename_i hmem
      rw [counts_cons_of_mem hmem]
      rfl
    · rfl
  · rw [hcache, hrequested]
    exact h.cached
  · rw [hhanded, hrequested, h.handed]

/-- A use that asks for a class. -/
theorem ask (h : Follows past s) {step : Use} {className : String}
    (hasked : step.asked = [className]) {s' : Registry × List String}
    (hlayouts : s'.1.layouts = s.1.layouts)
    (hlookup : ∀ other, s'.1.lookup? other = (s.1.request className).lookup? other)
    (hcached : ∀ place e, s'.1.cache.get? place = some e →
      s.1.cache.get? place = some e ∨ e.array = e.name.text ∧ e.array = className)
    (hhanded : s'.2 = s.2 ++ [className]) : Follows (step :: past) s' := by
  have hrequested : requested (step :: past) = requested past ++ [className] := by
    rw [requested, hasked]
  have hself : className ∈ requested (step :: past) := by
    rw [hrequested]
    exact List.mem_append_right _ List.mem_cons_self
  constructor
  · intro other
    rw [slotCount?, hlayouts, declared?_cons, Use.declares?_of_asked hasked, Option.none_or]
    exact h.declared other
  · intro other
    rw [hlookup, lookup?_request, h.declared, h.made]
    by_cases hpast : other ∈ requested past
    · rw [if_pos hpast, if_pos (mem_requested_cons hpast), counts_cons_of_mem hpast,
        Use.effect_of_asked hasked, Option.getD_some, ite_self]
    · rw [if_neg hpast, Option.getD_none]
      by_cases hother : other = className
      · obtain rfl := hother
        rw [if_pos rfl, if_pos hself, counts_cons_of_notMem hpast (hasked ▸ List.mem_cons_self)]
      · have hnew : other ∉ requested (step :: past) := by
          rw [hrequested, List.mem_append, List.mem_singleton, not_or]
          exact ⟨hpast, hother⟩
        rw [if_neg hother, if_neg hnew]
  · intro place e he
    rcases hcached place e he with hold | ⟨hname, hnew⟩
    · obtain ⟨hname, hmem⟩ := h.cached place e hold
      exact ⟨hname, mem_requested_cons hmem⟩
    · exact ⟨hname, hnew ▸ hself⟩
  · rw [hhanded, h.handed, hrequested]

theorem request (h : Follows past s) (className : String) :
    Follows (.request className :: past) (use keeper s (.request className)) :=
  h.ask rfl (s.1.request_frame className).1 (fun _ => rfl)
    (fun _ _ he => .inl ((s.1.request_frame className).2 ▸ he)) rfl

/-- What is asked for by way of the cache is what is asked for directly, whatever names have been
given the same place. -/
theorem requestCached (h : Follows past s) (className : String) :
    Follows (.requestCached className :: past) (use keeper s (.requestCached className)) := by
  rw [use]
  obtain ⟨e, he, hname, heq⟩ | ⟨cache, misses, heq, hcache⟩ :=
    s.1.requestCached_cases ⟨className, keeper className⟩
  · obtain ⟨harray, hmem⟩ := h.cached _ e he
    rw [hname] at harray
    rw [harray] at hmem
    have hmade := h.made className
    rw [if_pos hmem] at hmade
    -- The array has been made, so that asking for it would change nothing.
    have hsame : s.1.request className = s.1 := by
      rw [Registry.request, hmade]
    rw [heq]
    refine h.ask rfl rfl (fun other => ?_) (fun _ _ => .inl) (congrArg (s.2 ++ [·]) harray)
    rw [hsame]
  · rw [heq]
    refine h.ask rfl (s.1.request_frame className).1 (fun _ => rfl) (fun place e he => ?_) rfl
    obtain hold | rfl := hcache place e he
    · exact .inl hold
    · exact .inr ⟨rfl, rfl⟩

theorem write (h : Follows past s) (number : Nat) (w : Write) :
    Follows (.write number w :: past) (use keeper s (.write number w)) := by
  rw [use]
  cases harray : s.2[number]? with
  | none =>
      refine h.step rfl (fun _ => rfl) (fun className => ?_) rfl rfl
      have hother : (requested past)[number]? ≠ some className := by
        rw [← h.handed, harray]
        exact (Option.some_ne_none className).symm
      simp only [Use.effect, if_neg hother, Option.map_id']
  | some array =>
      obtain ⟨hlayouts, hcache⟩ := write_frame (r := s.1) array w
      refine h.step rfl (fun className => ?_) (fun className => ?_) hcache rfl
      · rw [slotCount?, hlayouts]
        rfl
      · simp only [lookup?_write, Use.effect, ← h.handed, harray]
        by_cases hclass : className = array
        · simp only [hclass, if_true]
        · simp only [if_neg hclass, Option.some.injEq, Ne.symm hclass, if_false, Option.map_id']

theorem declare (h : Follows past s) (className : String) (slots : Nat) :
    Follows (.declare className slots :: past) (use keeper s (.declare className slots)) := by
  refine h.step rfl (fun other => ?_) (fun other => ?_) rfl rfl
  · rw [use, slotCount?_declare, Use.declares?]
    by_cases hother : other = className
    · rw [if_pos hother, if_pos hother.symm, Option.some_or]
    · rw [if_neg hother, if_neg (Ne.symm hother), Option.none_or]
  · exact Option.map_id'.symm

theorem reset (h : Follows past s) : Follows (.reset :: past) (use keeper s .reset) :=
  h.step rfl (fun _ => rfl) (fun _ => SortedMap.get?_mapValues _ _ _) rfl rfl

theorem counters? (h : Follows past s) (className : String) :
    s.1.counters? className = told? className past := by
  rw [Registry.counters?, h.made, h.declared, told?]
  by_cases hmem : className ∈ requested past
  · rw [if_pos hmem, if_pos hmem]
  · rw [if_neg hmem, if_neg hmem]

end Follows

/-- Every registry follows its history. -/
theorem follows_after (keeper : String → Nat) (past : List Use) :
    Follows past (after keeper past) := by
  induction past with
  | nil => exact ⟨fun _ => rfl, fun _ => rfl, fun _ _ => nofun, rfl⟩
  | cons step past ih =>
      cases step with
      | declare className slots => exact ih.declare className slots
      | request className => exact ih.request className
      | requestCached className => exact ih.requestCached className
      | write number w => exact ih.write number w
      | reset => exact ih.reset

end Registry

end BytecodeCoverage
