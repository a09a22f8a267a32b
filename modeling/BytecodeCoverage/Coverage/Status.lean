/-!
# Coverage status of a line

A line without hits is not covered. A line with hits is fully covered if every outcome of its
branches has hits, and partly covered otherwise.
-/

namespace BytecodeCoverage

/-- How far a line is covered. -/
inductive Status
  | uncovered
  | partly
  | full
  deriving DecidableEq

namespace Status

/-- The rank of a status; more coverage has a greater rank. -/
def rank : Status → Nat
  | .uncovered => 0
  | .partly => 1
  | .full => 2

/-- The status of a line with so many hits and outcomes hit so often. -/
def ofCounts (hits : UInt32) (outcomes : List UInt32) : Status :=
  if hits = 0 then .uncovered
  else if outcomes.all fun n => n != 0 then .full
  else .partly

/-- The name of a status. -/
def name : Status → String
  | .uncovered => "NONE"
  | .partly => "PARTIAL"
  | .full => "FULL"

/-- The status with a given name. -/
def ofName? : String → Option Status
  | "NONE" => some .uncovered
  | "PARTIAL" => some .partly
  | "FULL" => some .full
  | _ => none

end Status

end BytecodeCoverage
