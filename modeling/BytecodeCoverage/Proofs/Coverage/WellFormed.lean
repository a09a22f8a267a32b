import BytecodeCoverage.Coverage.Decoding
import BytecodeCoverage.Proofs.Bytes.RoundTrip

/-!
# Well-formed snapshots and methods in reach

What the fields of a snapshot have to do with each other, and whether enough bytes follow the
index of each line's method: the index is read like a number of elements, which must not be
greater than the number of bytes after it.

**Main definitions.**
* `Snapshot.WellFormed`: names and lengths can be written, and slots are slots of their class.
* `Snapshot.InReach`: no line has too few bytes after the index of its method.
-/

namespace BytecodeCoverage

/-! ## Well-formed snapshots -/

/-- A text whose length can be written. -/
def Utf8.Short (s : String) : Prop :=
  (Utf8.encode s).length ≤ maxWord

instance (s : String) : Decidable (Utf8.Short s) :=
  inferInstanceAs (Decidable (_ ≤ _))

/-- Slots and counters of a switch go with its keys. -/
structure SwitchRecord.WellFormed (switch : SwitchRecord) : Prop where
  size : switch.keys.length ≤ maxWord
  slots : switch.keySlots.length = switch.keys.length
  hits : switch.keyHits.length = switch.keys.length

/-- The slots of a line are slots of its class. -/
structure LineRecord.WellFormed (slotCount : Nat) (line : LineRecord) : Prop where
  method : Utf8.Short line.method
  slots : ∀ slot ∈ line.slots, slot < slotCount
  instructions : ∀ n ∈ line.instructions, n ≤ maxWord
  jumps : line.jumps.length ≤ maxWord
  switches : line.switches.length ≤ maxWord
  switch : ∀ switch ∈ line.switches, switch.WellFormed

structure SourceMap.WellFormed (map : SourceMap) : Prop where
  generated : Utf8.Short map.generated
  stratum : Utf8.Short map.stratum
  files : map.files.length ≤ maxWord
  file : ∀ file ∈ map.files, Utf8.Short file.name ∧ ∀ path ∈ file.path, Utf8.Short path
  ranges : map.ranges.length ≤ maxWord

structure ClassRecord.WellFormed (record : ClassRecord) : Prop where
  name : Utf8.Short record.name
  sourceFile : ∀ file ∈ record.sourceFile, Utf8.Short file
  slotCount : record.slotCount ≤ maxWord
  hits : record.hits.length ≤ maxWord
  trace : ∀ flags ∈ record.trace, flags.length ≤ maxWord
  lines : record.lines.size ≤ maxWord
  line : ∀ e ∈ record.lines.entries, e.2.WellFormed record.slotCount
  mapping : ∀ map ∈ record.mapping, map.WellFormed

/-- Classes are stored under their names, and no number is too great to be written. -/
structure Snapshot.WellFormed (s : Snapshot) : Prop where
  size : s.classes.size ≤ maxWord
  name : ∀ e ∈ s.classes.entries, e.2.name = e.1
  record : ∀ e ∈ s.classes.entries, e.2.WellFormed

theorem length_eraseDups_le (names : List String) : names.eraseDups.length ≤ names.length := by
  induction hn : names.length using Nat.strongRecOn generalizing names with
  | ind n ih =>
      cases names with
      | nil => exact Nat.zero_le _
      | cons name rest =>
          have hle := List.length_filter_le (fun other => !other == name) rest
          have hfilter := ih _ (by rw [← hn]; exact Nat.lt_succ_of_le hle) _ rfl
          rw [List.eraseDups_cons, List.length_cons, ← hn, List.length_cons]
          omega

theorem ClassRecord.WellFormed.length_methods_le {record : ClassRecord} (h : record.WellFormed) :
    record.methods.length ≤ maxWord := by
  refine Nat.le_trans (length_eraseDups_le _) ?_
  rw [List.length_map, SortedMap.values, List.length_map]
  exact h.lines

theorem ClassRecord.method_mem_methods (record : ClassRecord) {e : UInt32 × LineRecord}
    (he : e ∈ record.lines.entries) : e.2.method ∈ record.methods :=
  List.mem_eraseDups.2 (List.mem_map.2 ⟨e.2, List.mem_map_of_mem he, rfl⟩)

theorem ClassRecord.WellFormed.short_of_mem_methods {record : ClassRecord} (h : record.WellFormed)
    {name : String} (hname : name ∈ record.methods) : Utf8.Short name := by
  obtain ⟨line, hline, rfl⟩ := List.mem_map.1 (List.mem_eraseDups.1 hname)
  obtain ⟨e, he, rfl⟩ := List.mem_map.1 hline
  exact (h.line e he).method

/-! ## Methods in reach -/

/-- What is written of a line after the index of its method. -/
def LineRecord.afterMethod (line : LineRecord) : Written :=
  Write.sequence
    [Write.varint line.slot,
     Write.varint line.hits.toNat,
     Write.option Write.varint line.instructions,
     Write.counted JumpRecord.written line.jumps,
     Write.counted SwitchRecord.written line.switches]

/-- The indices of the methods of some lines are not greater than the number of bytes after them;
`after` is the number of bytes after the lines. -/
def LineRecord.AllInReach (methods : List String) : List (UInt32 × LineRecord) → Nat → Prop
  | [], _ => True
  | e :: rest, after =>
      methods.idxOf e.2.method ≤ e.2.afterMethod.size +
        ((Write.elements (fun e => LineRecord.written methods e.1 e.2) rest).size + after) ∧
      AllInReach methods rest after

/-- The lines of some classes are in reach of their methods; the classes are written last. -/
def ClassRecord.AllInReach : List ClassRecord → Nat → Prop
  | [], _ => True
  | record :: rest, after =>
      LineRecord.AllInReach record.methods record.lines.entries
        ((Write.option SourceMap.written record.mapping).size +
          ((Write.elements ClassRecord.written rest).size + after)) ∧
      AllInReach rest after

/-- No line has too few bytes after the index of its method. -/
def Snapshot.InReach (s : Snapshot) : Prop :=
  ClassRecord.AllInReach s.classes.values 0

instance LineRecord.decidableAllInReach (methods : List String) :
    (entries : List (UInt32 × LineRecord)) → (after : Nat) →
      Decidable (LineRecord.AllInReach methods entries after)
  | [], _ => isTrue trivial
  | _ :: rest, after =>
      have := decidableAllInReach methods rest after
      inferInstanceAs (Decidable (_ ∧ _))

instance ClassRecord.decidableAllInReach :
    (records : List ClassRecord) → (after : Nat) → Decidable (ClassRecord.AllInReach records after)
  | [], _ => isTrue trivial
  | _ :: rest, after =>
      have := decidableAllInReach rest after
      inferInstanceAs (Decidable (_ ∧ _))

instance (s : Snapshot) : Decidable s.InReach :=
  ClassRecord.decidableAllInReach s.classes.values 0

end BytecodeCoverage
