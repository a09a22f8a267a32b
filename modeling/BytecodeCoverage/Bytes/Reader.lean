import BytecodeCoverage.Bytes.Integer
import BytecodeCoverage.Bytes.Utf8
import BytecodeCoverage.Text.Quoted

/-!
# Reading bytes

A reader stands somewhere in a sequence of bytes and goes on by what it reads. Reading can fail:
integers of fixed size that do not fit into the rest leave the reader where it is, all other
failures leave it behind the bytes they have looked at.

Numbers of variable length have seven bits a byte, the lowest first; the high bit says that
another byte follows. They have at most five bytes and stay below `2 ^ 32`.
-/

namespace BytecodeCoverage

/-- Why something could not be read. -/
inductive ReadFault
  | beyondEnd
  | boolByte (byte : UInt8) (offset : Nat)
  | overflow (offset : Nat)
  /-- There is still no last byte after this many bits. -/
  | tooLong (bits : Nat)
  | count (count remaining offset : Nat)
  | text (start stop : Nat) (defect : Utf8.Defect)
  deriving DecidableEq

/-- Two hexadecimal digits in upper case. -/
def hexByte (b : UInt8) : String :=
  let digit (n : Nat) : Char := ("0123456789ABCDEF".toList[n]?).getD '0'
  "0x" ++ String.ofList [digit (b.toNat / 16), digit (b.toNat % 16)]

instance : Fault ReadFault where
  kind
    | .beyondEnd => .outOfBounds
    | _ => .malformed
  detail
    | .beyondEnd => ""
    | .boolByte byte offset =>
        "Invalid boolean byte " ++ hexByte byte ++ " at offset " ++ toString offset
    | .overflow offset => "7-bit encoded integer overflow at offset " ++ toString offset
    | .tooLong bits =>
        "7-bit encoded integer overflow: value exceeds u32 capacity after " ++ toString bits ++
          " bits"
    | .count count remaining offset =>
        "Element count " ++ toString count ++ " exceeds remaining " ++ toString remaining ++
          " bytes at offset " ++ toString offset
    | .text start stop defect =>
        "Invalid UTF-8 string at offset " ++ toString start ++ "-" ++ toString stop ++ ": " ++
          defect.text

/-- A place in a sequence of bytes: how many bytes are behind it, and the ones before it. -/
structure Reader where
  pos : Nat
  rest : List UInt8
  deriving DecidableEq

/-- A reader at the start. -/
def Reader.ofBytes (bytes : List UInt8) : Reader :=
  ⟨0, bytes⟩

/-- Something that can be read: what it gives, and where the reader stands after it. -/
def Read (ε α : Type) : Type :=
  Reader → Except ε α × Reader

namespace Read

/-- Reads nothing. -/
def pure {ε α : Type} (x : α) : Read ε α :=
  fun r => (.ok x, r)

/-- Reads one thing after another; a failure ends the reading. -/
def bind {ε α β : Type} (first : Read ε α) (next : α → Read ε β) : Read ε β :=
  fun r =>
    match first r with
    | (.ok x, r) => next x r
    | (.error e, r) => (.error e, r)

instance {ε : Type} : Monad (Read ε) where
  pure := Read.pure
  bind := Read.bind

/-- Fails where the reader stands. -/
def fail {ε α : Type} (e : ε) : Read ε α :=
  fun r => (.error e, r)

/-- Reads the same kind of thing so many times. -/
def times {ε α : Type} (item : Read ε α) : Nat → Read ε (List α)
  | 0 => pure []
  | n + 1 => do
      let x ← item
      let xs ← times item n
      return x :: xs

/-- Reads with other causes of failure. -/
def mapFault {ε δ α : Type} (f : ε → δ) (item : Read ε α) : Read δ α :=
  fun r =>
    match item r with
    | (.ok x, r) => (.ok x, r)
    | (.error e, r) => (.error (f e), r)

/-- The number of bytes left. -/
def remaining {ε : Type} : Read ε Nat :=
  fun r => (.ok r.rest.length, r)

/-- The place where the reader stands. -/
def position {ε : Type} : Read ε Nat :=
  fun r => (.ok r.pos, r)

/-- The next `n` bytes; nothing is read if there are fewer. -/
def bytes (n : Nat) : Read ReadFault (List UInt8) :=
  fun r =>
    if n ≤ r.rest.length then (.ok (r.rest.take n), ⟨r.pos + n, r.rest.drop n⟩)
    else (.error .beyondEnd, r)

/-- An integer of fixed size. -/
def int (kind : IntKind) : Read ReadFault Int := do
  let bs ← bytes kind.size
  return Bytes.intOf kind bs

/-- A byte. -/
def byte : Read ReadFault UInt8 := fun r =>
  match r.rest with
  | [] => (.error .beyondEnd, r)
  | b :: rest => (.ok b, ⟨r.pos + 1, rest⟩)

/-- A truth value: a byte 0 or 1. -/
def bool : Read ReadFault Bool := do
  let b ← byte
  if b = 0 then return false
  else if b = 1 then return true
  else
    let pos ← position
    fail (.boolByte b (pos - 1))

/-- The bytes of a number after the first `k` of them, which make up `acc`. -/
def varintFrom (k acc pos : Nat) : List UInt8 → Except ReadFault Nat × Reader
  | [] => (.error .beyondEnd, ⟨pos, []⟩)
  | b :: rest =>
      let after : Reader := ⟨pos + 1, rest⟩
      if k = 4 ∧ b.toNat / 16 % 8 ≠ 0 then (.error (.overflow pos), after)
      else
        let acc := acc + b.toNat % 128 * Nat.pow 2 (7 * k)
        if b.toNat < 128 then (.ok acc, after)
        else if 4 ≤ k then (.error (.tooLong (7 * (k + 1))), after)
        else varintFrom (k + 1) acc (pos + 1) rest

/-- A number of variable length. -/
def varint : Read ReadFault Nat :=
  fun r => varintFrom 0 0 r.pos r.rest

/-- A number of elements, each of which takes at least one of the bytes left. -/
def count : Read ReadFault Nat := do
  let n ← varint
  let left ← remaining
  if left < n then
    let pos ← position
    fail (.count n left pos)
  else return n

/-- A text after the number of its bytes. -/
def string : Read ReadFault String := do
  let n ← varint
  let bs ← bytes n
  let stop ← position
  match Utf8.decode bs with
  | .ok s => return s
  | .error defect => fail (.text (stop - n) stop defect)

/-- A text that may be missing. -/
def optionalString : Read ReadFault (Option String) := do
  if ← bool then
    let s ← string
    return some s
  else return none

end Read

end BytecodeCoverage
