import BytecodeCoverage.SortedMap

/-!
# Traces of tests

While a test runs, the line probes of a class set flags in the mask of the class, which has one
flag for each slot. A mask is made when it is first asked for. All masks are cleared when a test
starts, and read out and cleared when it ends.
-/

namespace BytecodeCoverage

/-- The lines that a test executed, as slots of classes. -/
structure TestTrace where
  name : String
  /-- The slots of each class, ascending; classes without slots are left out. -/
  classes : SortedMap String (List Nat)

/-- The masks of all classes, and the traces of the tests that have ended. -/
structure Tracker where
  masks : SortedMap String (List Bool) := .empty
  archive : List TestTrace := []

namespace Tracker

/-- The places of the flags that are set, ascending, the first place being `slot`. -/
def setFrom (slot : Nat) : List Bool → List Nat
  | [] => []
  | true :: rest => slot :: setFrom (slot + 1) rest
  | false :: rest => setFrom (slot + 1) rest

/-- A mask with every flag clear. -/
def cleared (mask : List Bool) : List Bool :=
  mask.map fun _ => false

/-- The mask of a class; there may be none yet. -/
def mask? (tracker : Tracker) (className : String) : Option (List Bool) :=
  tracker.masks.get? className

/-- The flags of a class; a mask that is missing has none. -/
def mask (tracker : Tracker) (className : String) : List Bool :=
  (tracker.mask? className).getD []

/-- Makes a mask of the given length, unless there is a mask already. -/
def request (tracker : Tracker) (className : String) (length : Nat) : Tracker :=
  match tracker.mask? className with
  | some _ => tracker
  | none => { tracker with masks := tracker.masks.insert className (List.replicate length false) }

/-- Changes the mask of a class, if there is one. -/
def modify (tracker : Tracker) (className : String) (f : List Bool → List Bool) : Tracker :=
  match tracker.mask? className with
  | some mask => { tracker with masks := tracker.masks.insert className (f mask) }
  | none => tracker

/-- Sets a flag. There is nothing to do if the mask ends before. -/
def set (tracker : Tracker) (className : String) (slot : Nat) : Tracker :=
  tracker.modify className fun mask => mask.set slot true

/-- Clears the mask of a class. -/
def clear (tracker : Tracker) (className : String) : Tracker :=
  tracker.modify className cleared

/-- Reads out the mask of a class and clears it. -/
def take (tracker : Tracker) (className : String) : List Nat × Tracker :=
  (setFrom 0 (tracker.mask className), tracker.clear className)

/-- Clears every mask. -/
def clearAll (tracker : Tracker) : Tracker :=
  { tracker with masks := tracker.masks.mapValues fun _ mask => cleared mask }

/-- The slots set in each mask that has any. -/
def read (tracker : Tracker) : SortedMap String (List Nat) :=
  .ofList
    ((tracker.masks.entries.map fun e => (e.1, setFrom 0 e.2)).filter fun e => !e.2.isEmpty)

/-- A test starts. -/
def startTest (tracker : Tracker) : Tracker :=
  tracker.clearAll

/-- A test ends; its trace goes into the archive. -/
def endTest (tracker : Tracker) (name : String) : TestTrace × Tracker :=
  let trace : TestTrace := { name, classes := tracker.read }
  (trace, { tracker.clearAll with archive := tracker.archive ++ [trace] })

end Tracker

end BytecodeCoverage
