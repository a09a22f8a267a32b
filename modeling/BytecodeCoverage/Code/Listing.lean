import BytecodeCoverage.Code.Instruction
import BytecodeCoverage.Decimal.Plain
import BytecodeCoverage.Text.Quoted

/-!
# Listings

The text of labels, constants and instructions as they appear in messages.
-/

namespace BytecodeCoverage

/-- The items with a comma and a blank between them. -/
def commaSeparated (items : List String) : String :=
  ", ".intercalate items

/-- A label is written as its number after the letter `L`. -/
def Label.text (label : Label) : String :=
  "L" ++ toString label.id

/-- The fields of a record in braces. -/
def recordText (name : String) (fields : List (String × String)) : String :=
  name ++ " \x7b " ++ commaSeparated (fields.map fun field => field.1 ++ ": " ++ field.2) ++ " \x7d"

/-- A method that computes a constant. -/
def Handle.text (handle : Handle) : String :=
  recordText "Handle"
    [("owner", Text.quote handle.owner), ("name", Text.quote handle.name),
     ("descriptor", Text.quote handle.descriptor)]

namespace Constant

mutual

/-- A constant with its kind. -/
def text : Constant → String
  | .int value => "Int(" ++ toString value.toInt ++ ")"
  | .long value => "Long(" ++ toString value.toInt ++ ")"
  | .float bits => "Float(" ++ Decimal.binary32.text bits.toNat ++ ")"
  | .double bits => "Double(" ++ Decimal.binary64.text bits.toNat ++ ")"
  | .string value => "String(" ++ Text.quote value ++ ")"
  | .type name => "Type(" ++ Text.quote name ++ ")"
  | .dynamic name descriptor bootstrap arguments =>
      "Dynamic(" ++
        recordText "DynamicConstant"
          [("name", Text.quote name), ("descriptor", Text.quote descriptor),
           ("bootstrap", bootstrap.text),
           ("arguments", "[" ++ commaSeparated (texts arguments) ++ "]")] ++
        ")"

/-- The texts of several constants. -/
def texts : List Constant → List String
  | [] => []
  | constant :: rest => constant.text :: texts rest

end

end Constant

namespace Instruction

/-- One line of a listing. -/
def text : Instruction → String
  | .label placed => placed.text ++ ":"
  | .line number => "line " ++ toString number.toNat
  | .simple op => op.mnemonic
  | .int op operand => op.mnemonic ++ " " ++ toString operand.toInt
  | .localVar op index => op.mnemonic ++ " " ++ toString index.toNat
  | .iinc index delta => "iinc " ++ toString index.toNat ++ " " ++ toString delta.toInt
  | .ldc constant => "ldc " ++ constant.text
  | .type op descriptor => op.mnemonic ++ " " ++ descriptor
  | .field op owner name descriptor =>
      op.mnemonic ++ " " ++ owner ++ "." ++ name ++ ":" ++ descriptor
  | .method op owner name descriptor _ =>
      op.mnemonic ++ " " ++ owner ++ "." ++ name ++ descriptor
  | .jump op target => op.mnemonic ++ " " ++ target.text
  | .tableSwitch low high otherwise targets =>
      "tableswitch " ++ toString low.toInt ++ ".." ++ toString high.toInt ++ " default " ++
        otherwise.text ++ " [" ++ commaSeparated (targets.map Label.text) ++ "]"
  | .lookupSwitch otherwise keys targets =>
      "lookupswitch default " ++ otherwise.text ++ " [" ++
        commaSeparated
          ((keys.zip targets).map fun case => toString case.1.toInt ++ ": " ++ case.2.text) ++
        "]"

end Instruction

end BytecodeCoverage
