/-!
# UTF-8

The bytes of a text, and the text of bytes. Bytes that are no text are rejected at the first
character that is not well formed. Either the data ends within it, or it is known how many of its
bytes, at least one, could have started a character.
-/

namespace BytecodeCoverage
namespace Utf8

/-- The bytes of a character. -/
def encodeChar (c : Char) : List UInt8 :=
  let n := c.toNat
  let tail (n : Nat) : UInt8 := UInt8.ofNat (0x80 + n % 64)
  if n < 0x80 then [UInt8.ofNat n]
  else if n < 0x800 then [UInt8.ofNat (0xc0 + n / 64), tail n]
  else if n < 0x10000 then [UInt8.ofNat (0xe0 + n / 4096), tail (n / 64), tail n]
  else [UInt8.ofNat (0xf0 + n / 262144), tail (n / 4096), tail (n / 64), tail n]

/-- The bytes of a text. -/
def encode (s : String) : List UInt8 :=
  s.toList.flatMap encodeChar

/-- Where and why bytes are no text. -/
inductive Defect
  /-- The data ends within a character that starts at `index`. -/
  | incomplete (index : Nat)
  /-- The `length` bytes from `index` on start no character together with the next one. -/
  | invalid (length index : Nat)
  deriving DecidableEq

/-- The wording of a defect. -/
def Defect.text : Defect → String
  | .incomplete index => "incomplete utf-8 byte sequence from index " ++ toString index
  | .invalid length index =>
      "invalid utf-8 sequence of " ++ toString length ++ " bytes from index " ++ toString index

/-- What a first byte announces. -/
inductive Lead
  | one
  | two
  /-- Two more bytes, the next one from `low` to `high`. -/
  | three (low high : Nat)
  /-- Three more bytes, the next one from `low` to `high`. -/
  | four (low high : Nat)
  | none

/-- What a first byte announces; overlong forms and surrogates are left out. -/
def lead (b : UInt8) : Lead :=
  let n := b.toNat
  if n < 0x80 then .one
  else if n < 0xc2 then .none
  else if n < 0xe0 then .two
  else if n < 0xf0 then .three (if n = 0xe0 then 0xa0 else 0x80) (if n = 0xed then 0x9f else 0xbf)
  else if n < 0xf5 then .four (if n = 0xf0 then 0x90 else 0x80) (if n = 0xf4 then 0x8f else 0xbf)
  else .none

/-- Whether a byte is in a range. -/
def within (low high : Nat) (b : UInt8) : Bool :=
  low ≤ b.toNat && b.toNat ≤ high

/-- Whether a byte may follow a first one. -/
def isTail (b : UInt8) : Bool :=
  within 0x80 0xbf b

/-- The low six bits. -/
def low6 (b : UInt8) : Nat :=
  b.toNat % 64

/-- The characters of bytes; `i` is the index of the first of them. -/
def decodeFrom (i : Nat) : List UInt8 → Except Defect (List Char)
  | [] => .ok []
  | a :: rest =>
      match lead a with
      | .none => .error (.invalid 1 i)
      | .one => (decodeFrom (i + 1) rest).map (Char.ofNat a.toNat :: ·)
      | .two =>
          match rest with
          | [] => .error (.incomplete i)
          | b :: rest =>
              if !isTail b then .error (.invalid 1 i)
              else (decodeFrom (i + 2) rest).map (Char.ofNat (a.toNat % 32 * 64 + low6 b) :: ·)
      | .three low high =>
          match rest with
          | [] => .error (.incomplete i)
          | b :: rest =>
              if !within low high b then .error (.invalid 1 i)
              else
                match rest with
                | [] => .error (.incomplete i)
                | c :: rest =>
                    if !isTail c then .error (.invalid 2 i)
                    else
                      (decodeFrom (i + 3) rest).map
                        (Char.ofNat (a.toNat % 16 * 4096 + low6 b * 64 + low6 c) :: ·)
      | .four low high =>
          match rest with
          | [] => .error (.incomplete i)
          | b :: rest =>
              if !within low high b then .error (.invalid 1 i)
              else
                match rest with
                | [] => .error (.incomplete i)
                | c :: rest =>
                    if !isTail c then .error (.invalid 2 i)
                    else
                      match rest with
                      | [] => .error (.incomplete i)
                      | d :: rest =>
                          if !isTail d then .error (.invalid 3 i)
                          else
                            (decodeFrom (i + 4) rest).map
                              (Char.ofNat
                                (a.toNat % 8 * 262144 + low6 b * 4096 + low6 c * 64 + low6 d) :: ·)

/-- The text of bytes. -/
def decode (bytes : List UInt8) : Except Defect String :=
  (decodeFrom 0 bytes).map String.ofList

end Utf8
end BytecodeCoverage
