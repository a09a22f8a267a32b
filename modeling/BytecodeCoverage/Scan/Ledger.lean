import BytecodeCoverage.Class.Model
import BytecodeCoverage.SortedMap

/-!
# What a pass over a method registers

A pass over a method's code registers its line markers, its conditional jumps and its switches
in a ledger. Registered entries are never taken out. They may be retracted: a retracted entry
keeps its place and its data, and retracting it again changes nothing and reports `false`.

What is left at the end is a `Scan`. A jump or a switch survives only together with its line: it
is not retracted, and some marker of its line is not retracted either.
-/

namespace BytecodeCoverage

/-- A method with the class that declares it. -/
structure Scope where
  cls : ClassFile
  method : Method

/-- Whether the method's code calls `owner.name`. -/
def Scope.calls (scope : Scope) (owner name : String) : Bool :=
  match scope.method.body with
  | some body => body.code.any (Instruction.isCallTo owner name)
  | none => false

/-- A registered line marker: its position in the code and its line. -/
structure Marker where
  index : Nat
  line : UInt32
  retracted : Bool := false
  deriving DecidableEq

/-- A registered conditional jump: its position in the code and its line. -/
structure JumpSite where
  index : Nat
  line : UInt32
  retracted : Bool := false
  deriving DecidableEq

/-- A registered switch: its position in the code, its line, and its keys in target order. The
default outcome can be retracted on its own. -/
structure SwitchSite where
  index : Nat
  line : UInt32
  keys : List Int32
  retracted : Bool := false
  defaultRetracted : Bool := false
  deriving DecidableEq

/-- The place of a marker among the registered ones. -/
structure MarkerId where
  pos : Nat
  deriving DecidableEq

/-- The place of a jump among the registered ones. -/
structure JumpId where
  pos : Nat
  deriving DecidableEq

/-- The place of a switch among the registered ones. -/
structure SwitchId where
  pos : Nat
  deriving DecidableEq

/-- The outcome of a pass over a method; each list is in code order. -/
structure Scan where
  markers : List Marker := []
  jumps : List JumpSite := []
  switches : List SwitchSite := []
  /-- How many executable instructions belong to each line. -/
  counts : SortedMap UInt32 Nat := .empty

namespace Scan

/-- The lines of the markers, with repetitions. -/
def markedLines (scan : Scan) : List UInt32 :=
  scan.markers.map Marker.line

/-- The lines of the markers that are not retracted, with repetitions. -/
def keptLines (scan : Scan) : List UInt32 :=
  (scan.markers.filter fun marker => !marker.retracted).map Marker.line

/-- Whether a line keeps a record. -/
def keepsLine (scan : Scan) (line : UInt32) : Bool :=
  scan.keptLines.contains line

/-- Whether a jump keeps its record. -/
def keepsJump (scan : Scan) (jump : JumpSite) : Bool :=
  !jump.retracted && scan.keepsLine jump.line

/-- Whether a switch keeps its record. -/
def keepsSwitch (scan : Scan) (site : SwitchSite) : Bool :=
  !site.retracted && scan.keepsLine site.line

/-- The jumps that keep a record. -/
def survivingJumps (scan : Scan) : List JumpSite :=
  scan.jumps.filter scan.keepsJump

/-- The switches that keep a record. -/
def survivingSwitches (scan : Scan) : List SwitchSite :=
  scan.switches.filter scan.keepsSwitch

/-- Whether every marker is retracted. -/
def isEmpty (scan : Scan) : Bool :=
  scan.markers.all Marker.retracted

end Scan

/-- A pass under way. -/
structure Ledger extends Scan where
  /-- The line of the last marker. -/
  currentLine : Option UInt32 := none
  /-- The position of the instruction looked at. -/
  position : Nat := 0

/-- Applies `retire` at a place, if there is an entry and it is `live`; says whether it did. -/
def retractAt {α : Type} (live : α → Bool) (retire : α → α) : List α → Nat → List α × Bool
  | [], _ => ([], false)
  | x :: rest, 0 => if live x then (retire x :: rest, true) else (x :: rest, false)
  | x :: rest, n + 1 =>
      let (rest, done) := retractAt live retire rest n
      (x :: rest, done)

namespace Ledger

/-- Turns to the instruction at `index`. -/
def advance (ledger : Ledger) (index : Nat) : Ledger :=
  { ledger with position := index }

/-- Registers a marker; its line becomes the current one. -/
def registerLine (ledger : Ledger) (index : Nat) (line : UInt32) : Ledger :=
  { ledger with
    currentLine := some line
    markers := ledger.markers ++ [{ index, line }] }

/-- Registers a jump on the current line. Before the first marker there is none, and nothing is
registered. -/
def registerJump (ledger : Ledger) (index : Nat) : Ledger :=
  match ledger.currentLine with
  | some line => { ledger with jumps := ledger.jumps ++ [{ index, line }] }
  | none => ledger

/-- Registers a switch on the current line, if there is one. -/
def registerSwitch (ledger : Ledger) (index : Nat) (keys : List Int32) : Ledger :=
  match ledger.currentLine with
  | some line => { ledger with switches := ledger.switches ++ [{ index, line, keys }] }
  | none => ledger

/-- Counts one executable instruction for the current line, if there is one. -/
def countInstruction (ledger : Ledger) : Ledger :=
  match ledger.currentLine with
  | some line => { ledger with counts := ledger.counts.update line fun n => n.getD 0 + 1 }
  | none => ledger

/-- The place of the last of `n` entries. -/
def lastOf (n : Nat) : Option Nat :=
  match n with
  | 0 => none
  | n + 1 => some n

/-- The marker registered last, retracted or not. -/
def lastLine (ledger : Ledger) : Option MarkerId :=
  (lastOf ledger.markers.length).map MarkerId.mk

/-- The jump registered last, retracted or not. -/
def lastJump (ledger : Ledger) : Option JumpId :=
  (lastOf ledger.jumps.length).map JumpId.mk

/-- The switch registered last, retracted or not. -/
def lastSwitch (ledger : Ledger) : Option SwitchId :=
  (lastOf ledger.switches.length).map SwitchId.mk

/-- The entry of a marker. -/
def marker? (ledger : Ledger) (id : MarkerId) : Option Marker :=
  ledger.markers[id.pos]?

/-- The entry of a jump. -/
def jump? (ledger : Ledger) (id : JumpId) : Option JumpSite :=
  ledger.jumps[id.pos]?

/-- The entry of a switch. -/
def switch? (ledger : Ledger) (id : SwitchId) : Option SwitchSite :=
  ledger.switches[id.pos]?

/-- The marker registered for the instruction looked at. -/
def lineHere (ledger : Ledger) : Option MarkerId :=
  ledger.lastLine.filter fun id =>
    (ledger.marker? id).any fun marker => marker.index == ledger.position

/-- The jump registered for the instruction looked at; a jump before the first marker, for one,
has not been registered. -/
def jumpHere (ledger : Ledger) : Option JumpId :=
  ledger.lastJump.filter fun id =>
    (ledger.jump? id).any fun jump => jump.index == ledger.position

/-- The switch registered for the instruction looked at. -/
def switchHere (ledger : Ledger) : Option SwitchId :=
  ledger.lastSwitch.filter fun id =>
    (ledger.switch? id).any fun site => site.index == ledger.position

/-- Retracts a marker. -/
def removeLine (ledger : Ledger) (id : MarkerId) : Ledger × Bool :=
  let (markers, done) :=
    retractAt (fun m => !m.retracted) (fun m => { m with retracted := true }) ledger.markers id.pos
  ({ ledger with markers }, done)

/-- Retracts a jump. -/
def removeJump (ledger : Ledger) (id : JumpId) : Ledger × Bool :=
  let (jumps, done) :=
    retractAt (fun j => !j.retracted) (fun j => { j with retracted := true }) ledger.jumps id.pos
  ({ ledger with jumps }, done)

/-- Retracts a switch. -/
def removeSwitch (ledger : Ledger) (id : SwitchId) : Ledger × Bool :=
  let (switches, done) :=
    retractAt (fun s => !s.retracted) (fun s => { s with retracted := true }) ledger.switches id.pos
  ({ ledger with switches }, done)

/-- Retracts the default outcome of a switch that is itself not retracted. -/
def removeSwitchDefault (ledger : Ledger) (id : SwitchId) : Ledger × Bool :=
  let (switches, done) :=
    retractAt (fun s => !s.retracted && !s.defaultRetracted)
      (fun s => { s with defaultRetracted := true }) ledger.switches id.pos
  ({ ledger with switches }, done)

end Ledger

end BytecodeCoverage
