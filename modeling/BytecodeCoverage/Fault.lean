/-!
# Failures

Every operation that can fail has an inductive type of its own causes. `Fault` is what those
types share: a kind, which tells a caller what sort of thing went wrong, and a wording.

Only some kinds open their message with a phrase of their own (`FaultKind.opening`); the rest of
a message is the cause's `detail`.
-/

namespace BytecodeCoverage

/-- Sorts of failure. -/
inductive FaultKind
  /-- The input contradicts the format or itself. -/
  | malformed
  /-- A read would have passed the end of the data. -/
  | outOfBounds
  /-- A version, instruction or operand that is not dealt with. -/
  | unsupported
  /-- There was no input at all. -/
  | empty
  /-- An option text that is not understood. -/
  | config
  /-- A length that has no encoding. -/
  | exhausted
  /-- The receiver of the output took only a part of it. -/
  | sink
  /-- Executed code failed. -/
  | execution
  deriving DecidableEq

/-- The phrase that opens every message of a kind. -/
def FaultKind.opening : FaultKind → String
  | .unsupported => "This input is not supported - "
  | .empty => "Provided input was empty"
  | .config => "Invalid configuration - "
  | .exhausted => "Resource exhausted - "
  | _ => ""

/-- A type of causes of failure. -/
class Fault (ε : Type) where
  /-- The sort of failure a cause belongs to. -/
  kind : ε → FaultKind
  /-- What a cause adds to the opening of its kind. -/
  detail : ε → String

/-- The message of a cause. -/
def Fault.message {ε : Type} [Fault ε] (cause : ε) : String :=
  (kind cause).opening ++ detail cause

end BytecodeCoverage
