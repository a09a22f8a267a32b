import BytecodeCoverage.Bytes.Reader
import BytecodeCoverage.Coverage.Encoding

/-!
# Reading snapshots

The inverse of writing a snapshot. Besides what can go wrong with single numbers and texts, a
reader rejects slots that the class does not have, methods that it does not list, lines and
classes that occur twice, and anything after the last class.
-/

namespace BytecodeCoverage

/-- Why bytes are no snapshot. -/
inductive DecodeFault
  | noData
  | bytes (fault : ReadFault)
  | magic
  | version (found : UInt8)
  | modeBits (found : UInt8)
  | slot (slot slotCount : Nat)
  | method (index : Nat)
  | duplicateLine (number : UInt32) (className : String)
  | duplicateClass (className : String)
  | trailing (bytes : Nat)

instance : Fault DecodeFault where
  kind
    | .noData => .empty
    | .bytes fault => Fault.kind fault
    | .version _ => .unsupported
    | _ => .malformed
  detail
    | .noData => ""
    | .bytes fault => Fault.detail fault
    | .magic => "Invalid snapshot magic"
    | .version found => "snapshot version " ++ toString found.toNat ++ ", expected 1"
    | .modeBits found => "Unknown mode bits " ++ hexByte found
    | .slot slot slotCount =>
        "Slot " ++ toString slot ++ " outside of " ++ toString slotCount ++ " allocated slots"
    | .method index => "Method index " ++ toString index ++ " out of range"
    | .duplicateLine number className =>
        "Line " ++ toString number.toNat ++ " of '" ++ className ++ "' encoded twice"
    | .duplicateClass className => "Duplicate class '" ++ className ++ "'"
    | .trailing bytes => toString bytes ++ " trailing bytes after snapshot"

namespace Decode

/-- What the readers of snapshots read. -/
abbrev Get (α : Type) : Type :=
  Read DecodeFault α

/-- Reads a plain thing. -/
def plain {α : Type} (item : Read ReadFault α) : Get α :=
  item.mapFault .bytes

/-- A number. -/
def nat : Get Nat :=
  plain Read.varint

/-- A word. -/
def word : Get UInt32 := do
  let n ← nat
  return UInt32.ofNat n

/-- A number of elements and the elements. -/
def counted {α : Type} (item : Get α) : Get (List α) := do
  let n ← plain Read.count
  item.times n

/-- Something that may be missing. -/
def option {α : Type} (item : Get α) : Get (Option α) := do
  if ← plain Read.bool then
    let x ← item
    return some x
  else return none

/-- A slot of a class that has `slotCount` of them. -/
def slot (slotCount : Nat) : Get Nat := do
  let n ← nat
  if n < slotCount then return n else Read.fail (.slot n slotCount)

/-- A jump. -/
def jump (slotCount : Nat) : Get JumpRecord := do
  let takenSlot ← slot slotCount
  let notTakenSlot ← slot slotCount
  let takenHits ← word
  let notTakenHits ← word
  return { takenSlot, notTakenSlot, takenHits, notTakenHits }

/-- A key of a switch. -/
def key : Get Int32 := do
  let n ← plain (Read.int .i32)
  return Int32.ofInt n

/-- A switch. -/
def switch (slotCount : Nat) : Get SwitchRecord := do
  let n ← plain Read.count
  let keys ← key.times n
  let keySlots ← (slot slotCount).times n
  let keyHits ← word.times n
  let defaultSlot ← option (slot slotCount)
  let defaultHits ← word
  return { keys, keySlots, keyHits, defaultSlot, defaultHits }

/-- One of the listed methods. -/
def method (methods : List String) : Get String := do
  let index ← plain Read.count
  match methods[index]? with
  | some name => return name
  | none => Read.fail (.method index)

/-- A line with its number. -/
def line (methods : List String) (slotCount : Nat) : Get (UInt32 × LineRecord) := do
  let number ← word
  let method ← method methods
  let slot ← slot slotCount
  let hits ← word
  let instructions ← option nat
  let jumps ← counted (jump slotCount)
  let switches ← counted (switch slotCount)
  return (number, { method, slot, hits, jumps, switches, instructions })

/-- So many lines of a class, after the ones in `known`. -/
def lines (className : String) (methods : List String) (slotCount : Nat) :
    Nat → SortedMap UInt32 LineRecord → Get (SortedMap UInt32 LineRecord)
  | 0, known => return known
  | n + 1, known => do
      let (number, record) ← line methods slotCount
      if known.contains number then Read.fail (.duplicateLine number className)
      else lines className methods slotCount n (known.insert number record)

/-- A file of a source map. -/
def file : Get MappedFile := do
  let id ← word
  let name ← plain Read.string
  let path ← plain Read.optionalString
  return { id, name, path }

/-- A range of a source map. -/
def range : Get LineRange := do
  let file ← word
  let inputStart ← word
  let count ← word
  let outputStart ← word
  let increment ← word
  return { file, inputStart, count, outputStart, increment }

/-- A source map. -/
def sourceMap : Get SourceMap := do
  let generated ← plain Read.string
  let stratum ← plain Read.string
  let files ← counted file
  let ranges ← counted range
  return { generated, stratum, files, ranges }

/-- A class. -/
def classRecord : Get ClassRecord := do
  let name ← plain Read.string
  let sourceFile ← plain Read.optionalString
  let fullyAnalyzed ← plain Read.bool
  let slotCount ← nat
  let hits ← counted word
  let trace ← option (counted (plain Read.bool))
  let methods ← counted (plain Read.string)
  let lineCount ← plain Read.count
  let lines ← lines name methods slotCount lineCount .empty
  let mapping ← option sourceMap
  return { name, sourceFile, lines, slotCount, hits, trace, fullyAnalyzed, mapping }

/-- So many classes, after the ones in `s`. -/
def classes : Nat → Snapshot → Get Snapshot
  | 0, s => return s
  | n + 1, s => do
      let record ← classRecord
      if s.classes.contains record.name then Read.fail (.duplicateClass record.name)
      else classes n (s.insert record)

/-- The given bytes, and no others. -/
def exactly : List UInt8 → Get Unit
  | [] => return ()
  | expected :: rest => do
      let b ← plain Read.byte
      if b = expected then exactly rest else Read.fail .magic

/-- A mode. -/
def mode : Get Mode := do
  let bits ← plain Read.byte
  if bits < 8 then
    return ⟨bits &&& 1 != 0, bits &&& 2 != 0, bits &&& 4 != 0⟩
  else Read.fail (.modeBits bits)

/-- A snapshot, with nothing after it. -/
def snapshot : Get Snapshot := do
  exactly Snapshot.magic
  let version ← plain Read.byte
  if version ≠ Snapshot.version then Read.fail (.version version)
  else
    let mode ← mode
    let n ← plain Read.count
    let s ← classes n { mode }
    let left ← Read.remaining
    if left = 0 then return s else Read.fail (.trailing left)

end Decode

/-- Reads the written form of a snapshot. -/
def Snapshot.decode (data : List UInt8) : Except DecodeFault Snapshot :=
  if data.isEmpty then .error .noData else (Decode.snapshot (.ofBytes data)).1

end BytecodeCoverage
