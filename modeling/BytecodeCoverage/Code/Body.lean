import BytecodeCoverage.Code.Listing
import BytecodeCoverage.Fault

/-!
# Method bodies

A body is a method's code with its exception table and its limits on the operand stack and the
local variables. It also carries the label that is drawn next, which stands above all that the
code and the exception table mention. Labels are drawn by counting in 32 bits: behind the greatest
word the count begins again at zero, and then a drawn label may be one that the body mentions.

`Body.check` accepts the bodies that probes can be put into: every label is placed at most
once, every target and every bound of a protected range is placed, a table switch has one target
for each key of a non-empty range, and the keys of a lookup switch strictly ascend.
-/

namespace BytecodeCoverage

/-- A protected range: from `start` up to but excluding `stop`. -/
structure TryRange where
  start : Label
  stop : Label
  handler : Label
  /-- The class caught; every exception is caught if there is none. -/
  catchType : Option String

/-- The labels of a protected range. -/
def TryRange.labels (range : TryRange) : List Label :=
  [range.start, range.stop, range.handler]

/-- The first word above a range's labels. -/
def TryRange.firstAbove (range : TryRange) : UInt32 :=
  max (max range.start.word range.stop.word) range.handler.word + 1

/-- The first word above the given labels; nothing stands above the greatest word. -/
def Label.firstAbove : List Label → UInt32
  | [] => 0
  | label :: rest => max (label.word + 1) (firstAbove rest)

/-- A method's code. -/
structure Body where
  code : List Instruction
  tryRanges : List TryRange
  maxStack : UInt16
  maxLocals : UInt16
  nextLabel : UInt32

/-- What `Body.check` objects to. -/
inductive Body.Defect
  | duplicateLabel (label : Label) (index : Nat)
  | emptyRange (index : Nat) (low high : Int32)
  | targetCount (index : Nat) (targets : Nat) (keys : Int)
  | keyCount (index : Nat) (keys targets : Nat)
  | keyOrder (index : Nat)
  | unplacedTarget (index : Nat) (insn : Instruction) (label : Label)
  | unplacedBound (label : Label)

instance : Fault Body.Defect where
  kind _ := .malformed
  detail
    | .duplicateLabel label index =>
        "Label " ++ label.text ++ " placed twice (second at instruction " ++ toString index ++ ")"
    | .emptyRange index low high =>
        "tableswitch at " ++ toString index ++ " has empty range " ++ toString low.toInt ++ ".." ++
          toString high.toInt
    | .targetCount index targets keys =>
        "tableswitch at " ++ toString index ++ " has " ++ toString targets ++ " targets for " ++
          toString keys ++ " keys"
    | .keyCount index keys targets =>
        "lookupswitch at " ++ toString index ++ " has " ++ toString keys ++ " keys but " ++
          toString targets ++ " targets"
    | .keyOrder index => "lookupswitch at " ++ toString index ++ " keys are not strictly ascending"
    | .unplacedTarget index insn label =>
        "Instruction " ++ toString index ++ " (" ++ insn.text ++ ") targets unplaced label " ++
          label.text
    | .unplacedBound label => "Exception table entry refers to unplaced label " ++ label.text

namespace Body

/-- The labels placed in the code, in order. -/
def placedIn : List Instruction → List Label
  | [] => []
  | .label placed :: rest => placed :: placedIn rest
  | _ :: rest => placedIn rest

/-- The numbers of the line markers in the code, in order. -/
def markedLines : List Instruction → List UInt32
  | [] => []
  | .line number :: rest => number :: markedLines rest
  | _ :: rest => markedLines rest

/-- The number of the label that is drawn next. -/
def watermark (body : Body) : Nat :=
  body.nextLabel.toNat

/-- A body from its parts; the label that is drawn next follows from them. -/
def ofParts (code : List Instruction) (tryRanges : List TryRange) (maxStack maxLocals : UInt16) :
    Body where
  code
  tryRanges
  maxStack
  maxLocals
  nextLabel :=
    (tryRanges.map TryRange.firstAbove).foldl max
      (Label.firstAbove (code.flatMap Instruction.labels))

/-- Draws a label. -/
def newLabel (body : Body) : Label × Body :=
  (⟨body.nextLabel⟩, { body with nextLabel := body.nextLabel + 1 })

/-- The labels placed in the code. -/
def placed (body : Body) : List Label :=
  placedIn body.code

/-- The position of the last placement of a label. -/
def position? (body : Body) (label : Label) : Option Nat :=
  go 0 body.code
where
  /-- Searches from index `i` on. -/
  go (i : Nat) : List Instruction → Option Nat
    | [] => none
    | insn :: rest =>
        (go (i + 1) rest).or
          (match insn with
           | .label placed => if placed = label then some i else none
           | _ => none)

/-- The distinct line numbers in the order of their first markers. -/
def lines (body : Body) : List UInt32 :=
  (markedLines body.code).eraseDups

/-- Whether there is a line marker. -/
def hasLines (body : Body) : Bool :=
  body.code.any Instruction.isLine

/-- How many instructions execute. -/
def executableLength (body : Body) : Nat :=
  body.code.countP Instruction.isExecutable

/-- The first label placed a second time. -/
def duplicate? (seen : List Label) (i : Nat) : List Instruction → Option Defect
  | [] => none
  | .label placed :: rest =>
      if seen.contains placed then some (.duplicateLabel placed i)
      else duplicate? (placed :: seen) (i + 1) rest
  | _ :: rest => duplicate? seen (i + 1) rest

/-- Whether the numbers strictly ascend. -/
def ascends : List Int32 → Bool
  | a :: b :: rest => decide (a < b) && ascends (b :: rest)
  | _ => true

/-- What is wrong with the keys of a switch. -/
def switchDefect? (i : Nat) : Instruction → Option Defect
  | .tableSwitch low high _ targets =>
      let keys := high.toInt - low.toInt + 1
      if high < low then some (.emptyRange i low high)
      else if (targets.length : Int) = keys then none
      else some (.targetCount i targets.length keys)
  | .lookupSwitch _ keys targets =>
      if keys.length ≠ targets.length then some (.keyCount i keys.length targets.length)
      else if ascends keys then none
      else some (.keyOrder i)
  | _ => none

/-- The first of an instruction's targets that is placed nowhere. -/
def targetDefect? (placed : List Label) (i : Nat) (insn : Instruction) : Option Defect :=
  (insn.targets.find? fun label => !placed.contains label).map (.unplacedTarget i insn)

/-- The first defect of the instructions from index `i` on. -/
def instructionDefect? (placed : List Label) (i : Nat) : List Instruction → Option Defect
  | [] => none
  | insn :: rest =>
      ((switchDefect? i insn).or (targetDefect? placed i insn)).or
        (instructionDefect? placed (i + 1) rest)

/-- The first bound of a protected range that is placed nowhere. -/
def boundDefect? (placed : List Label) (ranges : List TryRange) : Option Defect :=
  ((ranges.flatMap TryRange.labels).find? fun label => !placed.contains label).map .unplacedBound

/-- The first defect: doubly placed labels come before defects of instructions, those before
defects of protected ranges. -/
def defect? (body : Body) : Option Defect :=
  ((duplicate? [] 0 body.code).or (instructionDefect? body.placed 0 body.code)).or
    (boundDefect? body.placed body.tryRanges)

/-- Accepts the bodies without defects. -/
def check (body : Body) : Except Defect Unit :=
  match body.defect? with
  | some defect => .error defect
  | none => .ok ()

end Body

end BytecodeCoverage
