import BytecodeCoverage.Fault
import BytecodeCoverage.SourceMap.Basic
import BytecodeCoverage.Text.Blank

/-!
# Reading source maps

A source map is a text of lines: the word `SMAP`, the name of the generated file, the name of a
stratum, and sections that start with a line `*` and a letter. Section `F` declares files and
section `L` ranges of lines; other sections are skipped, and `*E` or a second `*S` ends the map.
Blanks at the end of a line do not matter.

A file is declared by `id name`, or by `+ id name` and a line with its path. A range is written
`start#file,count:output,increment`; a missing file is the previous range's, and a missing count
or increment is one.
-/

namespace BytecodeCoverage

/-- Why a text is no source map. -/
inductive SourceMapFault
  | noText
  | header (line : String)
  | noGenerated
  | noStratum
  | fileEntry (entry : String)
  | lineEntry (entry : String)
  | number (text : String)

instance : Fault SourceMapFault where
  kind
    | .noText => .empty
    | _ => .malformed
  detail
    | .noText => ""
    | .header line => "Expected SMAP header, got '" ++ line ++ "'"
    | .noGenerated => "Missing generated file name"
    | .noStratum => "Missing default stratum"
    | .fileEntry entry => "Invalid file entry '" ++ entry ++ "'"
    | .lineEntry entry => "Line entry '" ++ entry ++ "' has no ':'"
    | .number text => "Invalid number '" ++ text ++ "' in source map"

namespace SourceMap

/-- The value of a decimal digit. -/
def digit? (c : Char) : Option Nat :=
  if '0' ≤ c ∧ c ≤ '9' then some (c.toNat - '0'.toNat) else none

/-- The number that digits spell after `acc`, if it is a 32-bit word. -/
def digits? (acc : Nat) : List Char → Option UInt32
  | [] => some (UInt32.ofNat acc)
  | c :: rest =>
      (digit? c).bind fun d => if 10 * acc + d ≤ maxWord then digits? (10 * acc + d) rest else none

/-- Reads one or more digits, perhaps after a plus sign. -/
def word? : List Char → Option UInt32
  | '+' :: c :: rest => digits? 0 (c :: rest)
  | ['+'] => none
  | [] => none
  | cs => digits? 0 cs

/-- Reads a number with blanks around it. -/
def readNumber (cs : List Char) : Except SourceMapFault UInt32 :=
  match word? (Text.trim cs) with
  | some n => .ok n
  | none => .error (.number (String.ofList cs))

/-- Reads `id name`. -/
def readFile (cs : List Char) : Except SourceMapFault MappedFile :=
  let entry := Text.trim cs
  match Text.cutAt? ' ' entry with
  | some (id, name) =>
      (readNumber id).map fun id => ⟨id, String.ofList (Text.trim name), none⟩
  | none => .error (.fileEntry (String.ofList entry))

/-- Reads what stands before and after `sep`; the second part may be missing. -/
def readPair (sep : Char) (missing : UInt32) (cs : List Char) :
    Except SourceMapFault (UInt32 × UInt32) :=
  match Text.cutAt? sep cs with
  | some (a, b) => do
      let a ← readNumber a
      let b ← readNumber b
      .ok (a, b)
  | none => (readNumber cs).map fun a => (a, missing)

/-- Reads a range; `lastFile` is the previous range's file. -/
def readRange (lastFile : UInt32) (cs : List Char) : Except SourceMapFault LineRange :=
  match Text.cutAt? ':' cs with
  | none => .error (.lineEntry (String.ofList cs))
  | some (input, output) => do
      let (input, count) ←
        match Text.cutAt? ',' input with
        | some (input, count) => (readNumber count).map fun count => (input, count)
        | none => .ok (input, 1)
      let (inputStart, file) ← readPair '#' lastFile input
      let (outputStart, increment) ← readPair ',' 1 output
      .ok { file, inputStart, count, outputStart, increment }

/-- What the lines of a section mean. -/
inductive Section
  | skipped
  | files
  | ranges
  deriving DecidableEq

/-- Gives the last file a path. -/
def withPath (path : String) : List MappedFile → List MappedFile
  | [] => []
  | [file] => [{ file with path := some path }]
  | file :: rest => file :: withPath path rest

/-- What has been read so far. -/
structure Progress where
  files : List MappedFile := []
  ranges : List LineRange := []
  current : Section := .skipped
  /-- Whether a stratum has been opened. -/
  inStratum : Bool := false
  lastFile : UInt32 := 0
  /-- Whether the next line is the path of the last file. -/
  expectPath : Bool := false

namespace Progress

/-- Opens the section named after the asterisk; nothing if the map ends here. -/
def openSection? (p : Progress) (name : List Char) : Option Progress :=
  let p := { p with expectPath := false }
  match name with
  | 'S' :: _ => if p.inStratum then none else some { p with current := .skipped, inStratum := true }
  | 'F' :: _ => some { p with current := .files }
  | 'L' :: _ => some { p with current := .ranges }
  | 'E' :: _ => none
  | _ => some { p with current := .skipped }

/-- Reads a line of the section of files. -/
def fileLine (p : Progress) (cs : List Char) : Except SourceMapFault Progress :=
  match cs with
  | '+' :: ' ' :: entry =>
      (readFile entry).map fun file => { p with files := p.files ++ [file], expectPath := true }
  | cs =>
      if p.expectPath then
        .ok { p with files := withPath (String.ofList cs) p.files, expectPath := false }
      else (readFile cs).map fun file => { p with files := p.files ++ [file] }

/-- Reads a line of a section. -/
def entryLine (p : Progress) (cs : List Char) : Except SourceMapFault Progress :=
  match p.current with
  | .files => p.fileLine cs
  | .ranges =>
      (readRange p.lastFile cs).map fun range =>
        { p with ranges := p.ranges ++ [range], lastFile := range.file }
  | .skipped => .ok p

/-- Reads the lines after the three of the header. -/
def readAll (p : Progress) : List (List Char) → Except SourceMapFault Progress
  | [] => .ok p
  | ('*' :: name) :: rest =>
      match p.openSection? name with
      | some p => p.readAll rest
      | none => .ok p
  | [] :: rest => p.readAll rest
  | cs :: rest =>
      match p.entryLine cs with
      | .ok p => p.readAll rest
      | .error fault => .error fault

end Progress

/-- Reads a source map. -/
def parse (text : String) : Except SourceMapFault SourceMap :=
  match (Text.lines text.toList).map Text.trimBack with
  | [] => .error .noText
  | header :: rest =>
      if header ≠ "SMAP".toList then .error (.header (String.ofList header))
      else
        match rest with
        | [] => .error .noGenerated
        | [_] => .error .noStratum
        | generated :: stratum :: lines =>
            (Progress.readAll {} lines).map fun p =>
              ⟨String.ofList generated, String.ofList stratum, p.files, p.ranges⟩

end SourceMap

end BytecodeCoverage
