import BytecodeCoverage.Fault

/-!
# Integers of fixed size

Integers of one, two, four or eight bytes, with or without sign, least significant byte first,
and access to them at any offset of a buffer. An access that would pass the end of the buffer, or
whose end has no 64-bit offset, fails and changes nothing.
-/

namespace BytecodeCoverage

/-- A size and a signedness. -/
inductive IntKind
  | u8 | i8 | u16 | i16 | u32 | i32 | u64 | i64
  deriving DecidableEq

namespace IntKind

/-- The number of bytes. -/
def size : IntKind → Nat
  | .u8 | .i8 => 1
  | .u16 | .i16 => 2
  | .u32 | .i32 => 4
  | .u64 | .i64 => 8

/-- Whether negative numbers are among the values. -/
def isSigned : IntKind → Bool
  | .i8 | .i16 | .i32 | .i64 => true
  | _ => false

/-- How many values there are. -/
def modulus (kind : IntKind) : Nat :=
  Nat.pow 256 kind.size

/-- Whether a number is a value of the kind. -/
def Holds (kind : IntKind) (n : Int) : Prop :=
  if kind.isSigned then -(kind.modulus : Int) ≤ 2 * n ∧ 2 * n < kind.modulus
  else 0 ≤ n ∧ n < kind.modulus

end IntKind

namespace Bytes

/-- The number that bytes spell, the least significant one first. -/
def natOf : List UInt8 → Nat
  | [] => 0
  | b :: rest => b.toNat + 256 * natOf rest

/-- The lowest `size` bytes of a number. -/
def ofNat : Nat → Nat → List UInt8
  | 0, _ => []
  | size + 1, n => UInt8.ofNat (n % 256) :: ofNat size (n / 256)

/-- The integer of a kind that bytes spell. -/
def intOf (kind : IntKind) (bytes : List UInt8) : Int :=
  let n := natOf bytes
  if kind.isSigned && decide (kind.modulus ≤ 2 * n) then (n : Int) - kind.modulus else n

/-- The bytes of an integer of a kind. -/
def ofInt (kind : IntKind) (n : Int) : List UInt8 :=
  ofNat kind.size (n % kind.modulus).toNat

theorem length_ofNat (size n : Nat) : (ofNat size n).length = size := by
  induction size generalizing n with
  | zero => rfl
  | succ size ih => simp [ofNat, ih]

theorem natOf_ofNat (size n : Nat) : natOf (ofNat size n) = n % Nat.pow 256 size := by
  induction size generalizing n with
  | zero => simp [ofNat, natOf, Nat.mod_one]
  | succ size ih =>
      have hpow : Nat.pow 256 (size + 1) = 256 * Nat.pow 256 size := Nat.mul_comm _ _
      rw [ofNat, natOf, ih, hpow, Nat.mod_mul]
      simp [UInt8.toNat_ofNat']

end Bytes

/-- An access beyond the end of a buffer. -/
inductive AccessFault
  | beyondEnd
  deriving DecidableEq

instance : Fault AccessFault where
  kind _ := .outOfBounds
  detail _ := ""

namespace Bytes

/-- Offsets are below this number. -/
def offsetBound : Nat := 0x10000000000000000

/-- The offset `size` bytes further, if there is one and it is within the buffer. -/
def endOf? (buffer : List UInt8) (offset : UInt64) (size : Nat) : Option UInt64 :=
  let stop := offset.toNat + size
  if stop < offsetBound ∧ stop ≤ buffer.length then some (UInt64.ofNat stop) else none

/-- Reads an integer; gives it with the offset after it. -/
def readAt (kind : IntKind) (buffer : List UInt8) (offset : UInt64) :
    Except AccessFault (Int × UInt64) :=
  match endOf? buffer offset kind.size with
  | some stop => .ok (intOf kind ((buffer.drop offset.toNat).take kind.size), stop)
  | none => .error .beyondEnd

/-- Writes an integer over what is there; gives the buffer with the offset after it. -/
def writeAt (kind : IntKind) (buffer : List UInt8) (offset : UInt64) (n : Int) :
    Except AccessFault (List UInt8 × UInt64) :=
  match endOf? buffer offset kind.size with
  | some stop =>
      .ok (buffer.take offset.toNat ++ ofInt kind n ++ buffer.drop (offset.toNat + kind.size), stop)
  | none => .error .beyondEnd

end Bytes

end BytecodeCoverage
