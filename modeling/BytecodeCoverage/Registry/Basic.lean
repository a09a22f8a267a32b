import BytecodeCoverage.Registry.Tracker
import BytecodeCoverage.Saturating

/-!
# The registry of counters

The registry holds an array of counters for each class. How many slots a class has is declared
beforehand. The array is made when it is first asked for, with as many counters as were declared
then, and from then on it keeps its length. It is known by the name of its class.

Code that asks for the same array again and again is served by a small cache, which recognises a
name by its identity as an object. A place of the cache is filled once and never again; names
that find their place taken are looked up every time.

**Main definitions.**
* `Registry`: the arrays, the masks of traces and the cache.
* `Registry.request`, `Registry.requestCached`: asking for an array.
* `Registry.store`, `Registry.increment`: writing to it.
-/

namespace BytecodeCoverage

/-- A text as an object. Equal texts are different objects if they have different keepers. -/
structure NameObject where
  text : String
  keeper : Nat
  deriving DecidableEq

/-- The number of places in the cache. -/
def cacheSize : Nat := 32

/-- The place of a name in the cache. -/
def NameObject.place (name : NameObject) : Nat :=
  name.keeper % cacheSize

/-- A place of the cache that has been filled: the name, and the class whose array it got. -/
structure CacheEntry where
  name : NameObject
  array : String
  deriving DecidableEq

/-- The counters and traces of all classes. -/
structure Registry where
  /-- The declared number of slots. -/
  layouts : SortedMap String Nat := .empty
  arrays : SortedMap String (List UInt32) := .empty
  tracker : Tracker := {}
  cache : SortedMap Nat CacheEntry := .empty
  /-- How often a name was not found in the cache. -/
  misses : Nat := 0

namespace Registry

/-- Declares the number of slots of a class; an array that has been made stays as it is. -/
def declare (r : Registry) (className : String) (slots : Nat) : Registry :=
  { r with layouts := r.layouts.insert className slots }

/-- The declared number of slots. -/
def slotCount? (r : Registry) (className : String) : Option Nat :=
  r.layouts.get? className

/-- The array of a class, if it has been made. -/
def lookup? (r : Registry) (className : String) : Option (List UInt32) :=
  r.arrays.get? className

/-- The counters in the array of a class; an array that is missing has none. -/
def array (r : Registry) (className : String) : List UInt32 :=
  (r.lookup? className).getD []

/-- Makes the array of a class, unless it has been made. Without a declaration it is empty. -/
def request (r : Registry) (className : String) : Registry :=
  match r.lookup? className with
  | some _ => r
  | none =>
      { r with
        arrays :=
          r.arrays.insert className (List.replicate ((r.slotCount? className).getD 0) 0) }

/-- Asks for an array by way of the cache; gives the class whose array it is. -/
def requestCached (r : Registry) (name : NameObject) : String × Registry :=
  let entry := r.cache.get? name.place
  match entry.filter fun e => e.name = name with
  | some e => (e.array, r)
  | none =>
      let r := { r with misses := r.misses + 1 }.request name.text
      let fresh : CacheEntry := { name, array := name.text }
      (name.text, { r with cache := r.cache.insert name.place (entry.getD fresh) })

/-- Makes the mask of a class with the declared number of flags, unless it has been made. -/
def requestMask (r : Registry) (className : String) : Registry :=
  { r with tracker := r.tracker.request className ((r.slotCount? className).getD 0) }

/-- Changes the array of a class, if it has been made. -/
def modifyArray (r : Registry) (className : String) (f : List UInt32 → List UInt32) : Registry :=
  match r.lookup? className with
  | some hits => { r with arrays := r.arrays.insert className (f hits) }
  | none => r

theorem lookup?_modifyArray_self (r : Registry) (className : String)
    (f : List UInt32 → List UInt32) :
    (r.modifyArray className f).lookup? className = (r.lookup? className).map f := by
  unfold modifyArray
  split
  · rename_i hits h
    simp [lookup?, SortedMap.get?_insert_self] at h ⊢
    simp [h]
  · rename_i h
    simp [h]

/-- Writes a counter; says whether there is one in the slot. -/
def store (r : Registry) (className : String) (slot : Nat) (n : UInt32) : Bool × Registry :=
  if slot < (r.array className).length then
    (true, r.modifyArray className fun hits => hits.set slot n)
  else (false, r)

/-- Adds one to a counter, which stops at the greatest word. -/
def increment (r : Registry) (className : String) (slot : Nat) : Bool × Registry :=
  r.store className slot (satAdd ((r.array className)[slot]?.getD 0) 1)

/-- Sets a flag of the trace of a class; says whether there is one in the slot. -/
def traceSlot (r : Registry) (className : String) (slot : Nat) : Bool × Registry :=
  if slot < (r.tracker.mask className).length then
    (true, { r with tracker := r.tracker.set className slot })
  else (false, r)

/-- The counters of a class: zeros if it was only declared, nothing if it is not known. -/
def counters? (r : Registry) (className : String) : Option (List UInt32) :=
  match r.lookup? className with
  | some hits => some hits
  | none => (r.slotCount? className).map fun slots => List.replicate slots 0

/-- An array of the same length with zeros. -/
def zeroed (hits : List UInt32) : List UInt32 :=
  hits.map fun _ => 0

/-- Sets the counters of a class to zero. -/
def resetClass (r : Registry) (className : String) : Registry :=
  r.modifyArray className zeroed

/-- Sets all counters to zero. -/
def reset (r : Registry) : Registry :=
  { r with arrays := r.arrays.mapValues fun _ hits => zeroed hits }

end Registry

end BytecodeCoverage
