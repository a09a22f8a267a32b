import BytecodeCoverage.Proofs.Registry.Histories

/-!
# Arrays that are shared

An array of counters is an object: the registry, its cache and everybody who has asked for it hold
the same one, so that each of them reads what the others write.  A registry that tells arrays apart
by their classes leaves open whether it is always the same object.  Here arrays are made in a
memory, and what is held of them is their address.

Each class gets one address, whether the cache is asked or not, and no two classes get the same
one.  So a registry of addresses tells about its classes what a registry of names does.

**Main definitions.**
* `SharedRegistry`: a registry of addresses; `SharedRegistry.after` is what becomes of a new one.
* `SharedRegistry.Follows`: a registry of addresses does what its history says.

**Results.**
* `SharedRegistry.follows_after`: every registry follows its history.
* `SharedRegistry.one_array`: what is handed out, how long it is, and what is told about it.
-/

namespace BytecodeCoverage

open Registry

/-- A registry whose arrays are known by their addresses. -/
structure SharedRegistry where
  /-- The declared number of slots. -/
  layouts : SortedMap String Nat := .empty
  /-- The arrays that have been made, each of them at its address. -/
  memory : List (List UInt32) := []
  /-- The addresses of the arrays. -/
  arrays : SortedMap String Nat := .empty
  /-- The places of the cache that have been filled: the name, and the address that it got. -/
  cache : SortedMap Nat (NameObject × Nat) := .empty
  /-- How often a name was not found in the cache. -/
  misses : Nat := 0

namespace SharedRegistry

/-- Declares the number of slots of a class. -/
def declare (r : SharedRegistry) (className : String) (slots : Nat) : SharedRegistry :=
  { r with layouts := r.layouts.insert className slots }

/-- Gives the address of the array of a class. The array is made, unless there is one. -/
def request (r : SharedRegistry) (className : String) : Nat × SharedRegistry :=
  match r.arrays.get? className with
  | some address => (address, r)
  | none =>
      (r.memory.length,
        { r with
          memory := r.memory ++ [List.replicate ((r.layouts.get? className).getD 0) 0]
          arrays := r.arrays.insert className r.memory.length })

/-- Gives the address of the array of a class by way of the cache. -/
def requestCached (r : SharedRegistry) (name : NameObject) : Nat × SharedRegistry :=
  let entry := r.cache.get? name.place
  match entry.filter fun e => e.1 = name with
  | some e => (e.2, r)
  | none =>
      let (address, r) := { r with misses := r.misses + 1 }.request name.text
      (address, { r with cache := r.cache.insert name.place (entry.getD (name, address)) })

/-- Something is written to the array at an address. -/
def write (r : SharedRegistry) (address : Nat) (w : Write) : SharedRegistry :=
  { r with memory := r.memory.modify address (Write.apply · w) }

/-- The counters of a class: zeros if it was only declared, nothing if it is not known. -/
def counters? (r : SharedRegistry) (className : String) : Option (List UInt32) :=
  match (r.arrays.get? className).bind fun address => r.memory[address]? with
  | some hits => some hits
  | none => (r.layouts.get? className).map fun slots => List.replicate slots 0

/-- Sets the counters of every class to zero. -/
def reset (r : SharedRegistry) : SharedRegistry :=
  { r with
    memory := r.memory.mapIdx fun address hits =>
      if address ∈ r.arrays.values then zeroed hits else hits }

/-- A registry is used. Beside it stand the addresses that have been handed out. -/
def use (keeper : String → Nat) (s : SharedRegistry × List Nat) : Use → SharedRegistry × List Nat
  | .declare className slots => (s.1.declare className slots, s.2)
  | .request className =>
      let (address, r) := s.1.request className
      (r, s.2 ++ [address])
  | .requestCached className =>
      let (address, r) := s.1.requestCached ⟨className, keeper className⟩
      (r, s.2 ++ [address])
  | .write number w =>
      match s.2[number]? with
      | some address => (s.1.write address w, s.2)
      | none => s
  | .reset => (s.1.reset, s.2)

/-- What becomes of a new registry. -/
def after (keeper : String → Nat) : List Use → SharedRegistry × List Nat
  | [] => ({}, [])
  | step :: past => use keeper (after keeper past) step

/-- A registry does what its history says: just the classes that have been asked for have an
address, each of them its own, and whoever asks for a class gets the address that it has.  There
stand the counters that have been written. -/
structure Follows (past : List Use) (s : SharedRegistry × List Nat) : Prop where
  declared : ∀ className, s.1.layouts.get? className = declared? className past
  known : ∀ className, (s.1.arrays.get? className).isSome ↔ className ∈ requested past
  made : ∀ className address, s.1.arrays.get? className = some address →
    s.1.memory[address]? = some (counts className past)
  apart : ∀ className other address, s.1.arrays.get? className = some address →
    s.1.arrays.get? other = some address → className = other
  cached : ∀ place e, s.1.cache.get? place = some e → s.1.arrays.get? e.1.text = some e.2
  handed : s.2.map some = (requested past).map s.1.arrays.get?

theorem get?_request (r : SharedRegistry) (className : String) :
    (r.request className).2.arrays.get? className = some (r.request className).1 := by
  unfold request
  cases haddress : r.arrays.get? className with
  | some address => exact haddress
  | none => exact SortedMap.get?_insert_self _ _ _

theorem get?_request_of_eq_some {r : SharedRegistry} {className : String} {address : Nat}
    (h : r.arrays.get? className = some address) (other : String) :
    (r.request other).2.arrays.get? className = some address := by
  unfold request
  cases hother : r.arrays.get? other with
  | some _ => exact h
  | none =>
      refine (SortedMap.get?_insert_of_ne _ _ fun heq => ?_).trans h
      rw [← heq, h] at hother
      cases hother

/-- No use takes an address from a class. -/
theorem get?_use (keeper : String → Nat) {s : SharedRegistry × List Nat} (step : Use)
    {className : String} {address : Nat} (h : s.1.arrays.get? className = some address) :
    (use keeper s step).1.arrays.get? className = some address := by
  cases step with
  | declare | reset => exact h
  | request other => exact get?_request_of_eq_some h other
  | requestCached other =>
      have hmissed := get?_request_of_eq_some (r := { s.1 with misses := s.1.misses + 1 }) h other
      rw [use, requestCached]
      cases (s.1.cache.get? (NameObject.place ⟨other, keeper other⟩)).filter
          fun e => e.1 = ⟨other, keeper other⟩ with
      | some _ => exact h
      | none => exact hmissed
  | write number w =>
      rw [use]
      split <;> exact h

theorem cache_request (r : SharedRegistry) (className : String) :
    (r.request className).2.cache = r.cache := by
  unfold request
  cases r.arrays.get? className <;> rfl

namespace Follows

variable {keeper : String → Nat} {past : List Use} {s : SharedRegistry × List Nat}

theorem mem_requested (h : Follows past s) {className : String} {address : Nat}
    (haddress : s.1.arrays.get? className = some address) : className ∈ requested past :=
  (h.known className).1 (by rw [haddress]; rfl)

theorem lt_length (h : Follows past s) {className : String} {address : Nat}
    (haddress : s.1.arrays.get? className = some address) : address < s.1.memory.length :=
  (List.getElem?_eq_some_iff.1 (h.made className address haddress)).1

/-- The address that a request has handed out is the one of the class that it asked for. -/
theorem getElem?_handed (h : Follows past s) (number : Nat) :
    s.2[number]?.map some = (requested past)[number]?.map s.1.arrays.get? := by
  rw [← List.getElem?_map, ← List.getElem?_map, h.handed]

/-! ## One use -/

/-- A use that asks for nothing. -/
theorem step (h : Follows past s) {step : Use} (hasked : step.asked = [])
    {s' : SharedRegistry × List Nat}
    (hlayouts : ∀ className, s'.1.layouts.get? className =
      (step.declares? className).or (s.1.layouts.get? className))
    (harrays : s'.1.arrays = s.1.arrays) (hcache : s'.1.cache = s.1.cache)
    (hmemory : ∀ className address, s.1.arrays.get? className = some address →
      s'.1.memory[address]? = some (step.effect past className (counts className past)))
    (hhanded : s'.2 = s.2) : Follows (step :: past) s' := by
  have hrequested : requested (step :: past) = requested past := by
    rw [requested, hasked, List.append_nil]
  constructor
  · intro className
    rw [hlayouts, h.declared, declared?_cons]
  · rw [harrays, hrequested]
    exact h.known
  · intro className address haddress
    rw [harrays] at haddress
    rw [hmemory className address haddress, counts_cons_of_mem (h.mem_requested haddress)]
  · rw [harrays]
    exact h.apart
  · rw [harrays, hcache]
    exact h.cached
  · rw [harrays, hhanded, hrequested]
    exact h.handed

theorem declare (h : Follows past s) (className : String) (slots : Nat) :
    Follows (.declare className slots :: past) (use keeper s (.declare className slots)) := by
  refine h.step rfl (fun other => ?_) rfl rfl h.made rfl
  rw [use, SharedRegistry.declare, Use.declares?]
  by_cases hother : other = className
  · rw [hother, SortedMap.get?_insert_self, if_pos rfl, Option.some_or]
  · rw [SortedMap.get?_insert_of_ne _ _ hother, if_neg (Ne.symm hother), Option.none_or]

theorem write (h : Follows past s) (number : Nat) (w : Write) :
    Follows (.write number w :: past) (use keeper s (.write number w)) := by
  have hhanded := h.getElem?_handed number
  rw [use]
  cases haddress : s.2[number]? with
  | none =>
      rw [haddress, Option.map_none, eq_comm, Option.map_eq_none_iff] at hhanded
      refine h.step rfl (fun _ => rfl) rfl rfl (fun className address hclass => ?_) rfl
      rw [Use.effect, hhanded, if_neg (Option.some_ne_none className).symm]
      exact h.made className address hclass
  | some target =>
      rw [haddress, Option.map_some, eq_comm, Option.map_eq_some_iff] at hhanded
      obtain ⟨owner, howner, htarget⟩ := hhanded
      refine h.step rfl (fun _ => rfl) rfl rfl (fun className address hclass => ?_) rfl
      refine (List.getElem?_modify ..).trans ?_
      rw [h.made className address hclass, Use.effect, howner]
      by_cases hsame : owner = className
      · obtain rfl := hsame
        obtain rfl := Option.some.inj (htarget.symm.trans hclass)
        rw [if_pos rfl]
        simp
      · have hother : target ≠ address := fun heq =>
          hsame (h.apart owner className address (heq ▸ htarget) hclass)
        rw [if_neg fun heq => hsame (Option.some.inj heq)]
        simp [hother]

theorem reset (h : Follows past s) : Follows (.reset :: past) (use keeper s .reset) := by
  refine h.step rfl (fun _ => rfl) rfl rfl (fun className address hclass => ?_) rfl
  have hvalue : address ∈ s.1.arrays.values :=
    List.mem_map_of_mem (SortedMap.mem_entries.2 hclass)
  rw [use, SharedRegistry.reset, List.getElem?_mapIdx, h.made className address hclass,
    Option.map_some, if_pos hvalue]
  rfl

/-- A class that has an address keeps it. -/
theorem again (h : Follows past s) {step : Use} {className : String}
    (hasked : step.asked = [className]) {address : Nat}
    (hclass : s.1.arrays.get? className = some address) :
    Follows (step :: past) (s.1, s.2 ++ [address]) := by
  have hrequested : requested (step :: past) = requested past ++ [className] := by
    rw [requested, hasked]
  refine ⟨fun other => ?_, fun other => ?_, fun other target htarget => ?_, h.apart, h.cached, ?_⟩
  · rw [h.declared, declared?_cons, Use.declares?_of_asked hasked, Option.none_or]
  · rw [h.known, hrequested, List.mem_append, List.mem_singleton]
    exact ⟨.inl, fun hmem => hmem.elim id fun heq => heq ▸ h.mem_requested hclass⟩
  · rw [h.made other target htarget, counts_cons_of_mem (h.mem_requested htarget),
      Use.effect_of_asked hasked]
  · rw [hrequested, List.map_append, List.map_append, h.handed, List.map_singleton,
      List.map_singleton, hclass]

/-- A class that has no address gets a new one, where zeros stand. -/
theorem first (h : Follows past s) {step : Use} {className : String}
    (hasked : step.asked = [className]) (hclass : s.1.arrays.get? className = none) :
    Follows (step :: past)
      ({ s.1 with
        memory := s.1.memory ++ [List.replicate ((s.1.layouts.get? className).getD 0) 0]
        arrays := s.1.arrays.insert className s.1.memory.length }, s.2 ++ [s.1.memory.length]) := by
  have hrequested : requested (step :: past) = requested past ++ [className] := by
    rw [requested, hasked]
  have hnew : className ∉ requested past := fun hmem => by
    rw [← h.known, hclass] at hmem
    cases hmem
  have hold : ∀ other, other ≠ className →
      (s.1.arrays.insert className s.1.memory.length).get? other = s.1.arrays.get? other :=
    fun other => SortedMap.get?_insert_of_ne _ _
  -- The new address comes after those of all other classes.
  have hget : ∀ other address,
      (s.1.arrays.insert className s.1.memory.length).get? other = some address →
      other = className ∧ address = s.1.memory.length ∨
        s.1.arrays.get? other = some address ∧ address < s.1.memory.length := by
    intro other address haddress
    by_cases hother : other = className
    · rw [hother, SortedMap.get?_insert_self] at haddress
      exact .inl ⟨hother, (Option.some.inj haddress).symm⟩
    · rw [hold other hother] at haddress
      exact .inr ⟨haddress, h.lt_length haddress⟩
  refine ⟨fun other => ?_, fun other => ?_, fun other address haddress => ?_,
    fun other another address haddress hanother => ?_, fun place e he => ?_, ?_⟩
  · rw [h.declared, declared?_cons, Use.declares?_of_asked hasked, Option.none_or]
  · rw [hrequested, List.mem_append, List.mem_singleton, ← h.known]
    by_cases hother : other = className
    · rw [hother, SortedMap.get?_insert_self]
      exact iff_of_true rfl (.inr rfl)
    · rw [hold other hother, or_iff_left hother]
  · obtain ⟨rfl, rfl⟩ | ⟨haddress, hlt⟩ := hget other address haddress
    · rw [List.getElem?_concat_length, counts_cons_of_notMem hnew (hasked ▸ List.mem_cons_self),
        h.declared]
    · rw [List.getElem?_append_left hlt, h.made other address haddress,
        counts_cons_of_mem (h.mem_requested haddress), Use.effect_of_asked hasked]
  · obtain ⟨rfl, rfl⟩ | ⟨haddress, hlt⟩ := hget other address haddress
    · obtain ⟨rfl, -⟩ | ⟨-, hlt⟩ := hget another _ hanother
      · rfl
      · exact absurd hlt (Nat.lt_irrefl _)
    · obtain ⟨-, rfl⟩ | ⟨hanother, -⟩ := hget another address hanother
      · exact absurd hlt (Nat.lt_irrefl _)
      · exact h.apart other another address haddress hanother
  · have haddress := h.cached place e he
    rw [hold _ fun heq => hnew (heq ▸ h.mem_requested haddress)]
    exact haddress
  · have hsame : (requested past).map (s.1.arrays.insert className s.1.memory.length).get? =
        (requested past).map s.1.arrays.get? :=
      List.map_congr_left fun other hother => hold other fun heq => hnew (heq ▸ hother)
    rw [hrequested, List.map_append, List.map_append, h.handed, hsame, List.map_singleton,
      List.map_singleton, SortedMap.get?_insert_self]

/-- A request gives the address of the class. -/
theorem ask (h : Follows past s) {step : Use} {className : String}
    (hasked : step.asked = [className]) :
    Follows (step :: past) ((s.1.request className).2, s.2 ++ [(s.1.request className).1]) := by
  cases hclass : s.1.arrays.get? className with
  | some address =>
      rw [SharedRegistry.request, hclass]
      exact h.again hasked hclass
  | none =>
      rw [SharedRegistry.request, hclass]
      exact h.first hasked hclass

/-- A place of the cache is filled with a name and the address of its class. -/
theorem fill (h : Follows past s) (name : NameObject) {address : Nat}
    (haddress : s.1.arrays.get? name.text = some address) {old : Option (NameObject × Nat)}
    (hplace : s.1.cache.get? name.place = old) :
    Follows past
      ({ s.1 with cache := s.1.cache.insert name.place (old.getD (name, address)) }, s.2) := by
  refine { h with cached := fun place e he => ?_ }
  obtain rfl := hplace
  obtain hold | rfl := SortedMap.get?_insert_getD he
  · exact h.cached place e hold
  · exact haddress

/-- What is asked for by way of the cache is what is asked for directly, whatever names have been
given the same place. -/
theorem requestCached (h : Follows past s) (className : String) :
    Follows (.requestCached className :: past) (use keeper s (.requestCached className)) := by
  rw [use, SharedRegistry.requestCached]
  cases hentry : (s.1.cache.get? (NameObject.place ⟨className, keeper className⟩)).filter
      fun e => e.1 = ⟨className, keeper className⟩ with
  | some e =>
      obtain ⟨he, hname⟩ := Option.filter_eq_some_iff.1 hentry
      have haddress := h.cached _ e he
      rw [of_decide_eq_true hname] at haddress
      have hsame : s.1.request className = (e.2, s.1) := by
        rw [SharedRegistry.request, haddress]
      have hasked : Follows (.requestCached className :: past) _ := h.ask rfl
      rw [hsame] at hasked
      exact hasked
  | none =>
      have hmissed : Follows past ({ s.1 with misses := s.1.misses + 1 }, s.2) := { h with }
      have hasked : Follows (.requestCached className :: past) _ := hmissed.ask rfl
      refine hasked.fill ⟨className, keeper className⟩ (get?_request _ className) ?_
      rw [cache_request]

/-- What is told is what the history says. -/
theorem counters? (h : Follows past s) (className : String) :
    s.1.counters? className = told? className past := by
  rw [SharedRegistry.counters?, told?, h.declared]
  cases haddress : s.1.arrays.get? className with
  | some address =>
      rw [Option.bind_some, h.made className address haddress, if_pos (h.mem_requested haddress)]
  | none =>
      have hmem : className ∉ requested past := by
        rw [← h.known, haddress]
        exact Bool.false_ne_true
      rw [Option.bind_none, if_neg hmem]

end Follows

/-! ## Whole histories -/

/-- Every registry follows its history. -/
theorem follows_after (keeper : String → Nat) (past : List Use) :
    Follows past (after keeper past) := by
  induction past with
  | nil =>
      exact ⟨fun _ => rfl, fun _ => ⟨nofun, nofun⟩, fun _ _ => nofun, fun _ _ _ => nofun,
        fun _ _ => nofun, rfl⟩
  | cons step past ih =>
      cases step with
      | declare className slots => exact ih.declare className slots
      | request className => exact ih.ask rfl
      | requestCached className => exact ih.requestCached className
      | write number w => exact ih.write number w
      | reset => exact ih.reset

/-- The address of the array of a class. -/
def addressOf (r : SharedRegistry) (className : String) : Nat :=
  (r.arrays.get? className).getD 0

theorem get?_addressOf {past : List Use} {s : SharedRegistry × List Nat} (h : Follows past s)
    {className : String} (hmem : className ∈ requested past) :
    s.1.arrays.get? className = some (s.1.addressOf className) := by
  obtain ⟨address, haddress⟩ := Option.isSome_iff_exists.1 ((h.known className).2 hmem)
  rw [addressOf, haddress, Option.getD_some]

/-- What has been handed out is the address of each class that has been asked for. -/
theorem handed_eq_map {past : List Use} {s : SharedRegistry × List Nat} (h : Follows past s) :
    s.2 = (requested past).map s.1.addressOf := by
  have hsome : (requested past).map s.1.arrays.get? =
      ((requested past).map s.1.addressOf).map some := by
    rw [List.map_map]
    exact List.map_congr_left fun className hmem => get?_addressOf h hmem
  exact (List.map_inj_right fun _ _ => Option.some.inj).1 (h.handed.trans hsome)

/-- A class keeps its address. -/
theorem get?_append (keeper : String → Nat) (later : List Use) {past : List Use}
    {className : String} {address : Nat}
    (haddress : (after keeper past).1.arrays.get? className = some address) :
    (after keeper (later ++ past)).1.arrays.get? className = some address := by
  induction later with
  | nil => exact haddress
  | cons step later ih => exact get?_use keeper step ih

/-- A registry hands out one array for each class, and different ones for different classes, however
they are asked for and whatever places the names have in the cache.  An array has as many slots as
had been declared when its class was asked for first, and keeps them.  Of every class the counters
are told that have been written since the last reset; of one that was only declared zeros are told,
and nothing of one that is not known.  So what is told about a class is changed by resets and by
uses of that class only.  All this is so of arrays that are known by their addresses, and a registry
that knows them by the names of their classes tells the same. -/
theorem one_array (keeper : String → Nat) (past : List Use) :
    (∃ address : String → Nat,
      (after keeper past).2 = (requested past).map address ∧
      (∀ className ∈ requested past, ∀ other ∈ requested past,
        address className = address other → className = other) ∧
      ∀ className ∈ requested past, ∀ later,
        (after keeper (later ++ past)).1.memory[address className]?.map List.length =
          some (slotsGiven className past)) ∧
    (Registry.after keeper past).2 = requested past ∧
    (∀ className, (after keeper past).1.counters? className = told? className past ∧
      (Registry.after keeper past).1.counters? className = told? className past) ∧
    ∀ step className, step ≠ .reset → step.concerns? past ≠ some className →
      (after keeper (step :: past)).1.counters? className =
          (after keeper past).1.counters? className ∧
        (Registry.after keeper (step :: past)).1.counters? className =
          (Registry.after keeper past).1.counters? className := by
  have hfollows := follows_after keeper past
  have hnamed := Registry.follows_after keeper past
  refine ⟨⟨(after keeper past).1.addressOf, handed_eq_map hfollows, ?_, ?_⟩, hnamed.handed, ?_, ?_⟩
  · intro className hmem other hother heq
    exact hfollows.apart className other _ (get?_addressOf hfollows hmem)
      (heq ▸ get?_addressOf hfollows hother)
  · intro className hmem later
    have haddress := get?_append keeper later (get?_addressOf hfollows hmem)
    rw [(follows_after keeper (later ++ past)).made className _ haddress, Option.map_some,
      length_counts_eq_slotsGiven, (slotsGiven_append hmem later).2]
  · exact fun className => ⟨hfollows.counters? className, hnamed.counters? className⟩
  · intro step className hreset hother
    rw [(follows_after keeper (step :: past)).counters?, hfollows.counters?,
      (Registry.follows_after keeper (step :: past)).counters?, hnamed.counters?]
    exact ⟨told?_cons_of_ne hreset hother, told?_cons_of_ne hreset hother⟩

/-- Both names have the same place in the cache, which the first one keeps. The second declaration
comes too late. -/
example :
    let s := after (fun _ => 7) [.write 2 (.increment 0), .requestCached "B", .declare "B" 5,
      .requestCached "B", .declare "B" 2, .requestCached "A"]
    s.2 = [0, 1, 1] ∧ s.1.counters? "B" = some [1, 0] ∧ s.1.misses = 3 :=
  ⟨rfl, rfl, rfl⟩

end SharedRegistry

end BytecodeCoverage
