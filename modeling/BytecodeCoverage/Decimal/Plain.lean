import BytecodeCoverage.Decimal.Shortest

/-!
# The plain text of floating-point numbers

Magnitudes from `10 ^ -4` up to but excluding `10 ^ 16` are written positionally with at least
one digit after the point, all others with an exponent; the sign of a zero is kept.
-/

namespace BytecodeCoverage
namespace Decimal

/-- `n` zeros. -/
def zeros (n : Nat) : List Char :=
  List.replicate n '0'

/-- Digits with a point somewhere, and a digit on both sides of it. -/
def positional (digits : List Char) (point : Int) : List Char :=
  if point ≤ 0 then ['0', '.'] ++ zeros (-point).toNat ++ digits
  else
    let whole := point.toNat
    if digits.length ≤ whole then digits ++ zeros (whole - digits.length) ++ ['.', '0']
    else digits.take whole ++ '.' :: digits.drop whole

/-- Digits with the point after the first one, and an exponent. -/
def scientific (digits : List Char) (point : Int) : List Char :=
  let mantissa :=
    match digits with
    | [] => []
    | [d] => [d]
    | d :: rest => d :: '.' :: rest
  mantissa ++ 'e' :: (toString (point - 1)).toList

/-- The text of a positive decimal. -/
def Digits.text (d : Digits) : List Char :=
  let spelled := Nat.toDigits 10 d.spelled
  let digits := (spelled.reverse.dropWhile (· == '0')).reverse
  if -4 < d.point ∧ d.point ≤ 16 then positional digits d.point else scientific digits d.point

/-- The text of a bit pattern of a format. -/
def Format.text (f : Format) (bits : Nat) : String :=
  let signed (negative : Bool) (cs : List Char) : String :=
    String.ofList (if negative then '-' :: cs else cs)
  match f.number bits with
  | .nan => "NaN"
  | .infinity negative => signed negative ['i', 'n', 'f']
  | .zero negative => signed negative ['0', '.', '0']
  | .finite negative value below above scale closed =>
      signed negative (shortest value below above scale closed).text

end Decimal
end BytecodeCoverage
