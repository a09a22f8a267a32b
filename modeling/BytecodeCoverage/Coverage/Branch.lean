import BytecodeCoverage.Saturating

/-!
# Records of branches

A jump has two outcomes; a switch has one for each key and, unless it is known to be unreachable,
a default. Each outcome has a slot in the counters of its class and a hit counter, which is a
copy of the counter in that slot. Counters add up to at most the greatest word.
-/

namespace BytecodeCoverage

/-- The counter in a slot; slots beyond the end count as zero. -/
def slotValue (hits : List UInt32) (slot : Nat) : UInt32 :=
  hits[slot]?.getD 0

/-- Both outcomes of a conditional jump. -/
structure JumpRecord where
  takenSlot : Nat
  notTakenSlot : Nat
  takenHits : UInt32 := 0
  notTakenHits : UInt32 := 0
  deriving DecidableEq

namespace JumpRecord

/-- The slots of the outcomes. -/
def slots (jump : JumpRecord) : List Nat :=
  [jump.takenSlot, jump.notTakenSlot]

/-- The counters of the outcomes. -/
def outcomes (jump : JumpRecord) : List UInt32 :=
  [jump.takenHits, jump.notTakenHits]

/-- Copies the counters from their slots. -/
def applyHits (hits : List UInt32) (jump : JumpRecord) : JumpRecord :=
  { jump with
    takenHits := slotValue hits jump.takenSlot
    notTakenHits := slotValue hits jump.notTakenSlot }

/-- Adds the counters of another record of the jump. -/
def accumulate (jump other : JumpRecord) : JumpRecord :=
  { jump with
    takenHits := satAdd jump.takenHits other.takenHits
    notTakenHits := satAdd jump.notTakenHits other.notTakenHits }

end JumpRecord

/-- The outcomes of a switch, with slots and counters in the order of the keys. -/
structure SwitchRecord where
  keys : List Int32
  keySlots : List Nat
  keyHits : List UInt32
  defaultSlot : Option Nat
  defaultHits : UInt32 := 0
  deriving DecidableEq

namespace SwitchRecord

/-- A record with counters at zero. -/
def fresh (keys : List Int32) (keySlots : List Nat) (defaultSlot : Option Nat) : SwitchRecord where
  keys
  keySlots
  keyHits := List.replicate keySlots.length 0
  defaultSlot

/-- The slots of the outcomes, the default last. -/
def slots (switch : SwitchRecord) : List Nat :=
  switch.keySlots ++ switch.defaultSlot.toList

/-- The counters of the outcomes, the default last. -/
def outcomes (switch : SwitchRecord) : List UInt32 :=
  switch.keyHits ++ (switch.defaultSlot.map fun _ => switch.defaultHits).toList

/-- The number of outcomes. -/
def outcomeCount (switch : SwitchRecord) : Nat :=
  switch.keySlots.length + switch.defaultSlot.toList.length

/-- Copies the counters from their slots; there is nothing to copy for a missing default. -/
def applyHits (hits : List UInt32) (switch : SwitchRecord) : SwitchRecord :=
  { switch with
    keyHits := switch.keySlots.map (slotValue hits)
    defaultHits :=
      match switch.defaultSlot with
      | some slot => slotValue hits slot
      | none => 0 }

/-- Adds counters pairwise; what only the second list has is dropped. -/
def addHits : List UInt32 → List UInt32 → List UInt32
  | a :: as, b :: bs => satAdd a b :: addHits as bs
  | as, [] => as
  | [], _ :: _ => []

/-- Adds the counters of another record of the switch, key by key. -/
def accumulate (switch other : SwitchRecord) : SwitchRecord :=
  { switch with
    keyHits := addHits switch.keyHits other.keyHits
    defaultHits :=
      match switch.defaultSlot with
      | some _ => satAdd switch.defaultHits other.defaultHits
      | none => switch.defaultHits }

end SwitchRecord

end BytecodeCoverage
