import BytecodeCoverage.Scan.Ledger

/-!
# Probe sites

A probe site is an event that a probe counts: a line marker that is passed, or one outcome of a
branch. Branches are named by the position of their instruction in the code without probes.

What a scan kept can be listed in code order; each kept entry leads to one or more sites.
-/

namespace BytecodeCoverage

/-- An event that a probe counts. -/
inductive ProbeSite
  /-- A marker of the line is passed. -/
  | line (number : UInt32)
  /-- The jump at `index` transfers control. -/
  | taken (index : Nat)
  /-- The jump at `index` falls through. -/
  | notTaken (index : Nat)
  /-- The switch at `index` selects the case at place `pos` of its targets. -/
  | case (index pos : Nat)
  /-- The switch at `index` selects its default. -/
  | otherwise (index : Nat)
  deriving DecidableEq

/-- An entry of a scan that keeps a record. -/
inductive Kept
  | line (marker : Marker)
  | jump (site : JumpSite)
  | switch (site : SwitchSite)
  deriving DecidableEq

/-- The position of a kept entry in the code. -/
def Kept.index : Kept → Nat
  | .line marker => marker.index
  | .jump site => site.index
  | .switch site => site.index

namespace Scan

/-- The markers that are not retracted. -/
def keptMarkers (scan : Scan) : List Marker :=
  scan.markers.filter fun marker => !marker.retracted

/-- The kept entries by position. Entries of one position stay in the order of markers, jumps,
switches. -/
def kept (scan : Scan) : List Kept :=
  (scan.keptMarkers.map Kept.line ++ scan.survivingJumps.map Kept.jump ++
    scan.survivingSwitches.map Kept.switch).mergeSort fun a b => a.index ≤ b.index

end Scan

end BytecodeCoverage
