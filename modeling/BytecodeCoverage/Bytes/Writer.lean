import BytecodeCoverage.Bytes.Integer
import BytecodeCoverage.Bytes.Utf8
import BytecodeCoverage.Saturating

/-!
# Writing bytes

The written forms of the things that a reader reads. Everything has one, except for numbers of
elements from `2 ^ 32` on.
-/

namespace BytecodeCoverage

/-- Why something has no written form. -/
inductive WriteFault
  | count (n : Nat)
  deriving DecidableEq

instance : Fault WriteFault where
  kind _ := .exhausted
  detail
    | .count n => "element count " ++ toString n ++ " exceeds the encoding range"

/-- The written form of something. -/
abbrev Written : Type :=
  Except WriteFault (List UInt8)

namespace Write

/-- Written forms one after the other. -/
def sequence : List Written → Written
  | [] => .ok []
  | item :: rest => do
      let bytes ← item
      let others ← sequence rest
      return bytes ++ others

/-- An integer of fixed size. -/
def int (kind : IntKind) (n : Int) : Written :=
  .ok (Bytes.ofInt kind n)

/-- A truth value. -/
def bool (b : Bool) : Written :=
  .ok [if b then 1 else 0]

/-- The bytes of a number of variable length; at most `fuel + 1` of them. -/
def varintBytes : Nat → Nat → List UInt8
  | 0, n => [UInt8.ofNat (n % 128)]
  | fuel + 1, n =>
      if n < 128 then [UInt8.ofNat n]
      else UInt8.ofNat (128 + n % 128) :: varintBytes fuel (n / 128)

/-- A number below `2 ^ 32`, in at most five bytes. -/
def varint (n : Nat) : Written :=
  .ok (varintBytes 4 n)

/-- A number of elements. -/
def count (n : Nat) : Written :=
  if n ≤ maxWord then varint n else .error (.count n)

/-- A text after the number of its bytes. -/
def string (s : String) : Written :=
  let bytes := Utf8.encode s
  sequence [count bytes.length, .ok bytes]

/-- A value that may be missing, after a truth value that says whether it is there. -/
def option {α : Type} (item : α → Written) : Option α → Written
  | some x => sequence [bool true, item x]
  | none => bool false

/-- The elements one after the other. -/
def elements {α : Type} (item : α → Written) (xs : List α) : Written :=
  sequence (xs.map item)

/-- The elements after their number. -/
def counted {α : Type} (item : α → Written) (xs : List α) : Written :=
  sequence [count xs.length, elements item xs]

end Write

/-! ## Receivers of limited room -/

/-- Why a receiver did not take everything. -/
inductive SinkFault
  | full
  deriving DecidableEq

instance : Fault SinkFault where
  kind _ := .sink
  detail _ := "failed to write whole buffer"

/-- A receiver with room for so many more bytes. -/
structure Sink where
  taken : List UInt8 := []
  room : Nat

/-- Takes what there is room for; fails if something is left. -/
def Sink.writeAll (sink : Sink) (bytes : List UInt8) : Except SinkFault Unit × Sink :=
  let after : Sink := ⟨sink.taken ++ bytes.take sink.room, sink.room - bytes.length⟩
  if bytes.length ≤ sink.room then (.ok (), after) else (.error .full, after)

end BytecodeCoverage
