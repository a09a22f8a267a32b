import BytecodeCoverage.Saturating
import BytecodeCoverage.SortedMap

/-!
# Source maps

A class generated from other sources may say where its lines come from. A source map lists the
files and, for ranges of lines of the generated file, the lines of a file they come from.
-/

namespace BytecodeCoverage

/-- A file that lines come from. -/
structure MappedFile where
  id : UInt32
  name : String
  path : Option String
  deriving DecidableEq

/-- `count` input lines from `inputStart` on; each gives `increment` output lines, the first of
all being `outputStart`. -/
structure LineRange where
  file : UInt32
  inputStart : UInt32
  count : UInt32
  outputStart : UInt32
  increment : UInt32
  deriving DecidableEq

namespace LineRange

/-- The first output line after the range. -/
def outputEnd (range : LineRange) : UInt64 :=
  range.outputStart.toUInt64 + range.count.toUInt64 * range.increment.toUInt64

/-- The input line of an output line, at most the greatest line there is. -/
def map? (range : LineRange) (output : UInt32) : Option UInt32 :=
  if range.increment = 0 ∨ output < range.outputStart ∨ range.outputEnd ≤ output.toUInt64 then none
  else some (satAdd range.inputStart ((output - range.outputStart) / range.increment))

/-- The output lines of the range, except for the greatest line there is. -/
def outputs (range : LineRange) : List UInt32 :=
  let start := range.outputStart.toNat
  (List.range' start (min range.outputEnd.toNat maxWord - start)).map UInt32.ofNat

end LineRange

/-- Where the lines of a generated file come from. -/
structure SourceMap where
  generated : String
  stratum : String
  files : List MappedFile
  ranges : List LineRange
  deriving DecidableEq

namespace SourceMap

/-- The file with an identifier; the first one counts. -/
def file? (map : SourceMap) (id : UInt32) : Option MappedFile :=
  map.files.find? fun file => file.id == id

/-- The file and line that an output line comes from, by the first range that has it and whose
file is declared. -/
def origin? (map : SourceMap) (output : UInt32) : Option (MappedFile × UInt32) :=
  map.ranges.findSome? fun range =>
    (range.map? output).bind fun input => (map.file? range.file).map fun file => (file, input)

/-- The output lines of each file that a range names, in the order of the ranges. -/
def outputsByFile (map : SourceMap) : SortedMap UInt32 (List UInt32) :=
  map.ranges.foldl
    (fun byFile range => byFile.update range.file fun lines => lines.getD [] ++ range.outputs)
    .empty

end SourceMap

end BytecodeCoverage
