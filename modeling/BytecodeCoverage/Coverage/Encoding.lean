import BytecodeCoverage.Bytes.Writer
import BytecodeCoverage.Coverage.Record

/-!
# The written form of snapshots

Four letters and a version, the mode, and the classes by ascending name. The methods of a class
are listed once, in the order in which its lines mention them; a line names its method by the
place in that list. The slots and the counters of a switch have as many elements as its keys and
carry no number of their own.
-/

namespace BytecodeCoverage

/-- The letters in front of every snapshot. -/
def Snapshot.magic : List UInt8 :=
  Utf8.encode "CVSN"

/-- The version of the written form. -/
def Snapshot.version : UInt8 := 1

/-- The bits of a mode. -/
def Mode.bits (mode : Mode) : UInt8 :=
  (if mode.branches then 1 else 0) + (if mode.instructions then 2 else 0) +
    (if mode.counts then 4 else 0)

namespace JumpRecord

/-- Slots and counters of a jump. -/
def written (jump : JumpRecord) : Written :=
  Write.elements Write.varint
    [jump.takenSlot, jump.notTakenSlot, jump.takenHits.toNat, jump.notTakenHits.toNat]

end JumpRecord

namespace SwitchRecord

/-- Keys, slots and counters of a switch, and its default. -/
def written (switch : SwitchRecord) : Written :=
  Write.sequence
    [Write.count switch.keys.length,
     Write.elements (fun key => Write.int .i32 key.toInt) switch.keys,
     Write.elements Write.varint switch.keySlots,
     Write.elements (fun n => Write.varint n.toNat) switch.keyHits,
     Write.option Write.varint switch.defaultSlot,
     Write.varint switch.defaultHits.toNat]

end SwitchRecord

namespace LineRecord

/-- A line with its number; `methods` are the methods of its class. -/
def written (methods : List String) (number : UInt32) (line : LineRecord) : Written :=
  Write.sequence
    [Write.varint number.toNat,
     Write.count (methods.idxOf line.method),
     Write.varint line.slot,
     Write.varint line.hits.toNat,
     Write.option Write.varint line.instructions,
     Write.counted JumpRecord.written line.jumps,
     Write.counted SwitchRecord.written line.switches]

end LineRecord

/-- A file of a source map. -/
def MappedFile.written (file : MappedFile) : Written :=
  Write.sequence
    [Write.varint file.id.toNat, Write.string file.name, Write.option Write.string file.path]

/-- A range of a source map. -/
def LineRange.written (range : LineRange) : Written :=
  Write.elements (fun n => Write.varint n.toNat)
    [range.file, range.inputStart, range.count, range.outputStart, range.increment]

/-- A source map. -/
def SourceMap.written (map : SourceMap) : Written :=
  Write.sequence
    [Write.string map.generated, Write.string map.stratum,
     Write.counted MappedFile.written map.files, Write.counted LineRange.written map.ranges]

namespace ClassRecord

/-- The methods that the lines mention, in order and each once. -/
def methods (record : ClassRecord) : List String :=
  (record.lines.values.map LineRecord.method).eraseDups

/-- A class. -/
def written (record : ClassRecord) : Written :=
  Write.sequence
    [Write.string record.name,
     Write.option Write.string record.sourceFile,
     Write.bool record.fullyAnalyzed,
     Write.varint record.slotCount,
     Write.counted (fun n => Write.varint n.toNat) record.hits,
     Write.option (Write.counted Write.bool) record.trace,
     Write.counted Write.string record.methods,
     Write.counted (fun e => LineRecord.written record.methods e.1 e.2) record.lines.entries,
     Write.option SourceMap.written record.mapping]

end ClassRecord

/-- The written form of a snapshot. -/
def Snapshot.encode (s : Snapshot) : Written :=
  Write.sequence
    [.ok Snapshot.magic, .ok [Snapshot.version], .ok [s.mode.bits],
     Write.counted ClassRecord.written s.classes.values]

end BytecodeCoverage
