import BytecodeCoverage.Text.Graphic

/-!
# Quoted text

A text in double quotes on one line: the quote and the backslash are preceded by a backslash,
tabs, line ends and the null character have escapes of their own, and any other character that
is not graphic is given by its number.
-/

namespace BytecodeCoverage
namespace Text

/-- The hexadecimal digits of a number, in lower case. -/
def hex (n : Nat) : String :=
  String.ofList (Nat.toDigits 16 n)

/-- How one character stands between double quotes. -/
def escape (c : Char) : String :=
  match c with
  | '"' => "\\\""
  | '\\' => "\\\\"
  | '\t' => "\\t"
  | '\n' => "\\n"
  | '\r' => "\\r"
  | '\x00' => "\\0"
  | c => if isGraphic c then c.toString else "\\u\x7b" ++ hex c.toNat ++ "\x7d"

/-- A text in double quotes. -/
def quote (s : String) : String :=
  "\"" ++ String.join (s.toList.map escape) ++ "\""

end Text
end BytecodeCoverage
