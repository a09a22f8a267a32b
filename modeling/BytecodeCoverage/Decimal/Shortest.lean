/-!
# Shortest decimals of binary floating-point numbers

A finite number of a binary interchange format is `significand · 2 ^ exponent`. Every real in an
interval around it rounds to it. Among the decimals in that interval, the ones with the fewest
digits are looked for, and the nearest of those is taken; of two equally near ones, the upper.

On the grid of decimals with `n` digits only the two neighbours of the value matter, so for each
`n` they alone are tested against the interval, in exact arithmetic.
-/

namespace BytecodeCoverage
namespace Decimal

/-- The widths of the fields of a binary interchange format. -/
structure Format where
  fractionBits : Nat
  exponentBits : Nat

/-- Single precision. -/
def binary32 : Format := ⟨23, 8⟩

/-- Double precision. -/
def binary64 : Format := ⟨52, 11⟩

/-- What a bit pattern stands for. -/
inductive Number
  | nan
  | infinity (negative : Bool)
  | zero (negative : Bool)
  /-- `value / scale` is the magnitude; the reals from `(value - below) / scale` to
  `(value + above) / scale` round to it, ends included iff `closed`. -/
  | finite (negative : Bool) (value below above scale : Nat) (closed : Bool)

namespace Format

/-- The exponent of the last place of the smallest normal numbers, negated. -/
def bias (f : Format) : Nat :=
  Nat.pow 2 (f.exponentBits - 1) + f.fractionBits - 2

/-- Reads the fields of a bit pattern. -/
def number (f : Format) (bits : Nat) : Number :=
  let fraction := bits % Nat.pow 2 f.fractionBits
  let exponent := bits / Nat.pow 2 f.fractionBits % Nat.pow 2 f.exponentBits
  let negative := bits / Nat.pow 2 (f.fractionBits + f.exponentBits) % 2 == 1
  if exponent = Nat.pow 2 f.exponentBits - 1 then
    if fraction = 0 then .infinity negative else .nan
  else if exponent = 0 ∧ fraction = 0 then .zero negative
  else
    let significand := if exponent = 0 then fraction else Nat.pow 2 f.fractionBits + fraction
    -- Units of a quarter of the last place, so that both half gaps are whole numbers.
    let unit := Nat.pow 2 (exponent - 1)
    let below := if exponent > 1 ∧ fraction = 0 then 1 else 2
    .finite negative (4 * significand * unit) (below * unit) (2 * unit) (4 * Nat.pow 2 f.bias)
      (significand % 2 == 0)

end Format

/-- A positive decimal `0.d₁d₂… · 10 ^ point`, given by the number that its digits spell. -/
structure Digits where
  spelled : Nat
  point : Int

/-- The exponent `e` with `10 ^ e ≤ value / scale < 10 ^ (e + 1)`. -/
def magnitude (value scale : Nat) : Int :=
  if scale ≤ value then ((Nat.toDigits 10 (value / scale)).length : Int) - 1
  else
    match (List.range 400).find? fun j => scale ≤ value * Nat.pow 10 (j + 1) with
    | some j => -((j : Int) + 1)
    | none => -400

/-- The better of the two neighbours on the grid with `n` digits, if one lies in the interval. -/
def onGrid? (value below above scale : Nat) (closed : Bool) (e : Int) (n : Nat) : Option Nat :=
  -- One grid step is `10 ^ (e - n + 1)`; cross-multiply to compare whole numbers.
  let shift := e - (n : Int) + 1
  let stepNum := scale * Nat.pow 10 shift.toNat
  let factor := Nat.pow 10 (-shift).toNat
  let lower := value * factor / stepNum
  let inside (d : Nat) : Bool :=
    let x := d * stepNum
    let low := (value - below) * factor
    let high := (value + above) * factor
    if closed then low ≤ x && x ≤ high else low < x && x < high
  let gapDown := value * factor - lower * stepNum
  let gapUp := (lower + 1) * stepNum - value * factor
  match inside lower, inside (lower + 1) with
  | true, true => some (if gapUp ≤ gapDown then lower + 1 else lower)
  | true, false => some lower
  | false, true => some (lower + 1)
  | false, false => none

/-- The shortest decimal of a positive number; seventeen digits are always enough. -/
def shortest (value below above scale : Nat) (closed : Bool) : Digits :=
  let e := magnitude value scale
  match (List.range 17).findSome? fun i =>
      (onGrid? value below above scale closed e (i + 1)).map fun d => (i + 1, d) with
  | some (n, d) =>
      let width := (Nat.toDigits 10 d).length
      ⟨d, e + 1 + (width - n : Nat)⟩
  | none => ⟨0, 0⟩

end Decimal
end BytecodeCoverage
