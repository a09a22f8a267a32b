import BytecodeCoverage.Proofs.Bytes.Ensuring
import BytecodeCoverage.Proofs.Coverage.Content
import BytecodeCoverage.Proofs.Coverage.WellFormed
import BytecodeCoverage.Proofs.SortedMap

/-!
# Snapshots that have been read

Whatever bytes a snapshot has been read from, it is well formed, and what it holds stands in these
bytes.  It is no bigger than they are: each element takes at least one byte.

**Main definitions.**
* `Snapshot.elementCount`: the number of elements in all lists of a snapshot.
* `Snapshot.StandsIn`: what the snapshot holds has been read under the names and numbers that it is
  stored under.

**Results.**
* `Decode.ensures_line`, `Decode.ensures_classRecord`: lines and classes.
* `Snapshot.wellFormed_of_decode`: snapshots.
-/

namespace BytecodeCoverage

/-! ## Numbers of elements -/

/-- The switch and its keys. -/
def SwitchRecord.elementCount (switch : SwitchRecord) : Nat :=
  1 + switch.keys.length

/-- The line, its jumps, its switches and their keys. -/
def LineRecord.elementCount (line : LineRecord) : Nat :=
  1 + line.jumps.length + (line.switches.map SwitchRecord.elementCount).sum

/-- The files and the ranges. -/
def SourceMap.elementCount (map : SourceMap) : Nat :=
  map.files.length + map.ranges.length

/-- The class, its counters, the flags of its trace, what its lines hold and what its source map
holds. -/
def ClassRecord.elementCount (record : ClassRecord) : Nat :=
  1 + record.hits.length + record.trace.elim 0 List.length +
    (record.lines.values.map LineRecord.elementCount).sum +
    record.mapping.elim 0 SourceMap.elementCount

/-- What the classes hold. -/
def Snapshot.elementCount (s : Snapshot) : Nat :=
  (s.classes.values.map ClassRecord.elementCount).sum

theorem sum_map_one {α : Type} (xs : List α) : (xs.map fun _ => 1).sum = xs.length := by
  rw [List.map_const', List.sum_replicate_nat, Nat.mul_one]

/-! ## What stands in the data -/

/-- Each line can be read somewhere in the data, together with the number that it is stored under. -/
def ClassRecord.LinesStandIn (data : List UInt8) (record : ClassRecord) : Prop :=
  ∃ methods, ∀ number line, record.line? number = some line →
    (Decode.line methods record.slotCount).Within data (number, line)

/-- Each class is stored under its own name and can be read somewhere in the data, and so can its
lines. -/
structure Snapshot.StandsIn (data : List UInt8) (s : Snapshot) : Prop where
  name : ∀ name record, s.class? name = some record → record.name = name
  record : ∀ name record, s.class? name = some record → Decode.classRecord.Within data record
  lines : ∀ name record, s.class? name = some record → record.LinesStandIn data

/-! ## New entries of a map -/

namespace SortedMap

variable {κ ν : Type} [Ord κ] [Std.TransOrd κ] [Std.LawfulEqOrd κ] {m m' : SortedMap κ ν} {k : κ}
  {P : κ × ν → Prop} {size : ν → Nat} {j n i : Nat}

/-- An entry with a new key comes on top of the others. -/
theorem perm_insert (hnew : m.contains k = false) (x : ν) :
    (m.insert k x).entries.Perm ((k, x) :: m.entries) := by
  have hnone : findEntry k m.entries = none :=
    Option.isNone_iff_eq_none.1 (Option.isSome_eq_false_iff.1 hnew)
  obtain ⟨before, after, hentries, hinsert⟩ := insertEntry_of_findEntry_none x hnone
  show (insertEntry k x m.entries).Perm _
  rw [hinsert, hentries]
  exact List.perm_middle

/-- From `m` to `m'` there are `j` new entries.  They have the property, and their sizes add up to
no more than `n`. -/
structure Grows (P : κ × ν → Prop) (size : ν → Nat) (j n : Nat) (m m' : SortedMap κ ν) : Prop where
  length : m'.size = m.size + j
  entry : ∀ e ∈ m'.entries, e ∈ m.entries ∨ P e
  sum : (m'.values.map size).sum ≤ (m.values.map size).sum + n

omit [Std.TransOrd κ] [Std.LawfulEqOrd κ] in
theorem Grows.refl (m : SortedMap κ ν) : Grows P size 0 0 m m :=
  ⟨rfl, fun _ he => .inl he, Nat.le_refl _⟩

theorem Grows.insert (hnew : m.contains k = false) {x : ν} (hx : P (k, x)) (hsize : size x ≤ n)
    (h : Grows P size j i (m.insert k x) m') : Grows P size (j + 1) (n + i) m m' := by
  have hperm := perm_insert hnew x
  have hlength : (m.insert k x).size = m.size + 1 := hperm.length_eq
  have hsum : ((m.insert k x).values.map size).sum = size x + (m.values.map size).sum := by
    rw [values, values, ((hperm.map Prod.snd).map size).sum_nat]
    rfl
  refine ⟨?_, fun e he => ?_, ?_⟩
  · rw [h.length, hlength, Nat.add_assoc, Nat.add_comm 1]
  · rcases h.entry e he with he | he
    · rcases List.mem_cons.1 (hperm.mem_iff.1 he) with rfl | he
      · exact .inr hx
      · exact .inl he
    · exact .inr he
  · have hle := h.sum
    omega

end SortedMap

namespace Decode

variable {α : Type} {data : List UInt8} {P : α → Prop} {size : α → Nat}

theorem ensures_nat : nat.Ensures data fun x n => x ≤ maxWord ∧ 1 ≤ n :=
  Read.ensures_varint.mapFault _

theorem ensures_word : word.Ensures data fun _ n => 1 ≤ n :=
  ensures_nat.bind fun _ _ hn => Read.ensures_pure hn.2

theorem ensures_count : (plain Read.count).Ensures data fun x n => x ≤ maxWord ∧ 1 ≤ n :=
  Read.ensures_count.mapFault _

theorem ensures_bool : (plain Read.bool).Ensures data fun _ n => n = 1 :=
  Read.ensures_bool.mapFault _

theorem ensures_string : (plain Read.string).Ensures data fun s n => Utf8.Short s ∧ 1 ≤ n :=
  Read.ensures_string.mapFault _

theorem ensures_optionalString :
    (plain Read.optionalString).Ensures data fun s n => (∀ text ∈ s, Utf8.Short text) ∧ 1 ≤ n :=
  Read.ensures_optionalString.mapFault _

theorem ensures_counted {item : Get α} (h : item.Ensures data fun x n => P x ∧ size x ≤ n) :
    (counted item).Ensures data fun xs n =>
      xs.length ≤ maxWord ∧ (∀ x ∈ xs, P x) ∧ (xs.map size).sum + 1 ≤ n := by
  refine ensures_count.bind fun k n hk => (h.times k).imp fun xs m hxs => ?_
  obtain ⟨rfl, hall, hsum⟩ := hxs
  exact ⟨hk.1, hall, by omega⟩

/-- Elements that take at least one byte are no more than bytes. -/
theorem ensures_counted_length {item : Get α} (h : item.Ensures data fun x n => P x ∧ 1 ≤ n) :
    (counted item).Ensures data fun xs n =>
      xs.length ≤ maxWord ∧ (∀ x ∈ xs, P x) ∧ xs.length + 1 ≤ n := by
  refine (ensures_counted h).imp fun xs n hxs => ?_
  rwa [sum_map_one] at hxs

theorem ensures_option {item : Get α} (h : item.Ensures data fun x n => P x ∧ size x ≤ n) :
    (option item).Ensures data fun x n => (∀ y ∈ x, P y) ∧ x.elim 0 size + 1 ≤ n := by
  refine ensures_bool.bind fun present n hn => .ite (fun _ => ?_) fun _ => ?_
  · refine h.bind fun x m hx => Read.ensures_pure ⟨?_, ?_⟩
    · rintro y ⟨⟩
      exact hx.1
    · show size x + 1 ≤ n + (m + 0)
      omega
  · refine Read.ensures_pure ⟨fun y hy => absurd hy (Option.not_mem_none y), ?_⟩
    show 0 + 1 ≤ n + 0
    omega

/-! ## Parts of a class -/

theorem ensures_slot (slotCount : Nat) :
    (slot slotCount).Ensures data fun x n => x < slotCount ∧ 1 ≤ n :=
  ensures_nat.bind fun _ _ hn =>
    .ite (fun hlt => Read.ensures_pure ⟨hlt, hn.2⟩) fun _ => Read.ensures_fail _ _

theorem ensures_jump (slotCount : Nat) :
    (jump slotCount).Ensures data fun jump n => (∀ slot ∈ jump.slots, slot < slotCount) ∧ 1 ≤ n := by
  refine (ensures_slot slotCount).bind fun taken n htaken =>
    (ensures_slot slotCount).bind fun notTaken _ hnotTaken =>
    ensures_word.bind fun _ _ _ => ensures_word.bind fun _ _ _ => Read.ensures_pure ⟨?_, by omega⟩
  simp only [JumpRecord.slots, List.mem_cons, List.not_mem_nil, or_false, forall_eq_or_imp, forall_eq]
  exact ⟨htaken.1, hnotTaken.1⟩

theorem ensures_key : key.Ensures data fun _ n => True ∧ 1 ≤ n :=
  ((Read.ensures_int .i32).mapFault _).bind fun _ n hn =>
    Read.ensures_pure ⟨trivial, by rw [hn]; decide⟩

theorem ensures_switch (slotCount : Nat) :
    (switch slotCount).Ensures data fun switch n =>
      (switch.WellFormed ∧ ∀ slot ∈ switch.slots, slot < slotCount) ∧
        switch.elementCount ≤ n := by
  refine ensures_count.bind fun k _ hk => (ensures_key.times k).bind fun keys _ hkeys =>
    ((ensures_slot slotCount).times k).bind fun keySlots _ hkeySlots =>
    ((ensures_word.imp fun _ _ hn => And.intro trivial hn).times k).bind fun keyHits _ hkeyHits =>
    (ensures_option (ensures_slot slotCount)).bind fun defaultSlot _ hdefault =>
    ensures_word.bind fun defaultHits _ _ => Read.ensures_pure ?_
  refine ⟨⟨⟨hkeys.1 ▸ hk.1, hkeySlots.1.trans hkeys.1.symm, hkeyHits.1.trans hkeys.1.symm⟩, ?_⟩, ?_⟩
  · intro slot hslot
    rcases List.mem_append.1 hslot with hslot | hslot
    · exact hkeySlots.2.1 slot hslot
    · exact hdefault.1 slot (Option.mem_toList.1 hslot)
  · have hsum := hkeys.2.2
    rw [sum_map_one] at hsum
    show 1 + keys.length ≤ _
    omega

theorem ensures_method {methods : List String} (h : ∀ name ∈ methods, Utf8.Short name) :
    (method methods).Ensures data fun name n => Utf8.Short name ∧ 1 ≤ n := by
  refine ensures_count.bind fun index n hindex => ?_
  split
  · rename_i name hname
    exact Read.ensures_pure ⟨h name (List.mem_of_getElem? hname), hindex.2⟩
  · exact Read.ensures_fail _ _

/-- A line with its number: the line is well formed, and stands in the data with this number. -/
theorem ensures_line {methods : List String} (h : ∀ name ∈ methods, Utf8.Short name)
    (slotCount : Nat) :
    (line methods slotCount).Ensures data fun e n =>
      ((line methods slotCount).Within data e ∧ e.2.WellFormed slotCount) ∧
        e.2.elementCount ≤ n := by
  refine .within <| ensures_word.bind fun number _ _ => (ensures_method h).bind fun method _ hmethod =>
    (ensures_slot slotCount).bind fun slot _ hslot => ensures_word.bind fun hits _ _ =>
    (ensures_option ensures_nat).bind fun instructions _ hinstructions =>
    (ensures_counted_length (ensures_jump slotCount)).bind fun jumps _ hjumps =>
    (ensures_counted (ensures_switch slotCount)).bind fun switches _ hswitches =>
    Read.ensures_pure ⟨⟨hmethod.1, ?_, hinstructions.1, hjumps.1, hswitches.1,
      fun switch hswitch => (hswitches.2.1 switch hswitch).1⟩, ?_⟩
  · intro other hother
    rcases List.mem_cons.1 hother with rfl | hother
    · exact hslot.1
    · rcases List.mem_append.1 hother with hother | hother
      · obtain ⟨jump, hjump, hother⟩ := List.mem_flatMap.1 hother
        exact hjumps.2.1 jump hjump other hother
      · obtain ⟨switch, hswitch, hother⟩ := List.mem_flatMap.1 hother
        exact (hswitches.2.1 switch hswitch).2 other hother
  · show 1 + jumps.length + (switches.map SwitchRecord.elementCount).sum ≤ _
    omega

theorem ensures_lines (className : String) {methods : List String}
    (h : ∀ name ∈ methods, Utf8.Short name) (slotCount k : Nat)
    (known : SortedMap UInt32 LineRecord) :
    (lines className methods slotCount k known).Ensures data fun lines n =>
      SortedMap.Grows
        (fun e => (line methods slotCount).Within data e ∧ e.2.WellFormed slotCount)
        LineRecord.elementCount k n known lines := by
  induction k generalizing known with
  | zero => exact Read.ensures_pure (.refl known)
  | succ k ih =>
      refine (ensures_line h slotCount).bind fun e n he =>
        .ite (fun _ => Read.ensures_fail _ _) fun hnew => (ih _).imp fun lines m hlines => ?_
      -- A number that is known already would have been rejected.
      exact .insert (Bool.not_eq_true _ ▸ hnew) he.1 he.2 hlines

theorem ensures_file :
    file.Ensures data fun file n =>
      (Utf8.Short file.name ∧ ∀ path ∈ file.path, Utf8.Short path) ∧ 1 ≤ n :=
  ensures_word.bind fun _ _ _ => ensures_string.bind fun _ _ hname =>
    ensures_optionalString.bind fun _ _ hpath =>
    Read.ensures_pure ⟨⟨hname.1, hpath.1⟩, by omega⟩

theorem ensures_range : range.Ensures data fun _ n => True ∧ 1 ≤ n :=
  ensures_word.bind fun _ _ _ => ensures_word.bind fun _ _ _ => ensures_word.bind fun _ _ _ =>
    ensures_word.bind fun _ _ _ => ensures_word.bind fun _ _ _ =>
    Read.ensures_pure ⟨trivial, by omega⟩

theorem ensures_sourceMap :
    sourceMap.Ensures data fun map n => map.WellFormed ∧ map.elementCount ≤ n := by
  refine ensures_string.bind fun generated _ hgenerated => ensures_string.bind fun stratum _ hstratum =>
    (ensures_counted_length ensures_file).bind fun files _ hfiles =>
    (ensures_counted_length ensures_range).bind fun ranges _ hranges =>
    Read.ensures_pure ⟨⟨hgenerated.1, hstratum.1, hfiles.1, hfiles.2.1, hranges.1⟩, ?_⟩
  show files.length + ranges.length ≤ _
  omega

/-! ## Classes -/

theorem ensures_classRecord :
    classRecord.Ensures data fun record n =>
      (classRecord.Within data record ∧ record.LinesStandIn data ∧ record.WellFormed) ∧
        record.elementCount ≤ n := by
  have hword : word.Ensures data fun _ n => True ∧ 1 ≤ n :=
    ensures_word.imp fun _ _ hn => ⟨trivial, hn⟩
  have hflag : (plain Read.bool).Ensures data fun _ n => True ∧ 1 ≤ n :=
    ensures_bool.imp fun _ _ hn => ⟨trivial, Nat.le_of_eq hn.symm⟩
  have hflags : (counted (plain Read.bool)).Ensures data fun flags n =>
      flags.length ≤ maxWord ∧ flags.length ≤ n :=
    (ensures_counted_length hflag).imp fun _ _ h => ⟨h.1, Nat.le_of_succ_le h.2.2⟩
  refine .within <| ensures_string.bind fun name _ hname =>
    ensures_optionalString.bind fun sourceFile _ hfile =>
    ensures_bool.bind fun fullyAnalyzed _ _ => ensures_nat.bind fun slotCount _ hslotCount =>
    (ensures_counted_length hword).bind fun hits _ hhits =>
    (ensures_option hflags).bind fun trace _ htrace =>
    (ensures_counted_length ensures_string).bind fun methods _ hmethods =>
    ensures_count.bind fun lineCount _ hlineCount =>
    (ensures_lines name hmethods.2.1 slotCount lineCount .empty).bind fun lines _ hlines =>
    (ensures_option ensures_sourceMap).bind fun mapping _ hmapping => Read.ensures_pure ?_
  have hline : ∀ e ∈ lines.entries,
      (line methods slotCount).Within data e ∧ e.2.WellFormed slotCount := fun e he =>
    (hlines.entry e he).resolve_left List.not_mem_nil
  have hsize : lines.size ≤ maxWord := by
    rw [hlines.length]
    exact (Nat.zero_add lineCount).symm ▸ hlineCount.1
  have hsum : (lines.values.map LineRecord.elementCount).sum ≤ 0 + _ := hlines.sum
  have hstand : ∀ number line, lines.get? number = some line →
      (Decode.line methods slotCount).Within data (number, line) := fun _ _ hget =>
    (hline _ (SortedMap.mem_entries.2 hget)).1
  refine ⟨⟨⟨methods, hstand⟩, ⟨hname.1, hfile.1, hslotCount.1, hhits.1, htrace.1, hsize,
    fun e he => (hline e he).2, hmapping.1⟩⟩, ?_⟩
  show 1 + hits.length + trace.elim 0 List.length +
    (lines.values.map LineRecord.elementCount).sum + mapping.elim 0 SourceMap.elementCount ≤ _
  omega

theorem ensures_classes (k : Nat) (s : Snapshot) :
    (classes k s).Ensures data fun t n =>
      SortedMap.Grows
        (fun e => e.2.name = e.1 ∧ classRecord.Within data e.2 ∧ e.2.LinesStandIn data ∧
          e.2.WellFormed)
        ClassRecord.elementCount k n s.classes t.classes := by
  induction k generalizing s with
  | zero => exact Read.ensures_pure (.refl s.classes)
  | succ k ih =>
      refine ensures_classRecord.bind fun record n hrecord =>
        .ite (fun _ => Read.ensures_fail _ _) fun hnew => (ih _).imp fun t m ht => ?_
      exact .insert (Bool.not_eq_true _ ▸ hnew) ⟨rfl, hrecord.1⟩ hrecord.2 ht

theorem ensures_exactly (expected : List UInt8) :
    (exactly expected).Ensures data fun _ _ => True := by
  induction expected with
  | nil => exact Read.ensures_pure trivial
  | cons b expected ih =>
      exact (Read.ensures_byte.mapFault _).bind fun _ _ _ => .ite (fun _ => ih) fun _ =>
        Read.ensures_fail _ _

theorem ensures_mode : mode.Ensures data fun _ _ => True :=
  (Read.ensures_byte.mapFault _).bind fun _ _ _ => .ite (fun _ => Read.ensures_pure trivial) fun _ =>
    Read.ensures_fail _ _

theorem ensures_content :
    content.Ensures data fun s n => (s.StandsIn data ∧ s.WellFormed) ∧ s.elementCount ≤ n := by
  refine (ensures_exactly _).bind fun _ _ _ => (Read.ensures_byte.mapFault _).bind fun _ _ _ =>
    .ite (fun _ => Read.ensures_fail _ _) fun _ => ensures_mode.bind fun mode _ _ =>
    ensures_count.bind fun k _ hk => (ensures_classes k _).imp fun s n hs => ?_
  have hrecord := fun e he => (hs.entry e he).resolve_left List.not_mem_nil
  have hget := fun name record (hget : s.class? name = some record) =>
    hrecord (name, record) (SortedMap.mem_entries.2 hget)
  have hsize : s.classes.size ≤ maxWord := by
    rw [hs.length]
    exact (Nat.zero_add k).symm ▸ hk.1
  have hsum : s.elementCount ≤ 0 + n := hs.sum
  have hstands : s.StandsIn data :=
    ⟨fun _ _ h => (hget _ _ h).1, fun _ _ h => (hget _ _ h).2.1, fun _ _ h => (hget _ _ h).2.2.1⟩
  exact ⟨⟨hstands, hsize, fun e he => (hrecord e he).1, fun e he => (hrecord e he).2.2.2⟩, by omega⟩

end Decode

namespace Snapshot

/-- Whatever bytes a snapshot has been read from, it is well formed, and its classes and lines are
stored under the names and numbers that they were read with.  There are no more elements than
bytes. -/
theorem wellFormed_of_decode {data : List UInt8} {s : Snapshot} (h : decode data = .ok s) :
    s.WellFormed ∧ s.StandsIn data ∧ s.elementCount ≤ data.length := by
  obtain ⟨pos, hcontent⟩ := decode_eq_ok.1 h
  obtain ⟨used, hused, ⟨hstands, hwellFormed⟩, hcount⟩ :=
    Decode.ensures_content (List.suffix_refl data) hcontent
  rw [List.append_nil] at hused
  obtain rfl : data = used := hused
  exact ⟨hwellFormed, hstands, hcount⟩

/-- A class with elements of every kind. -/
def ofEveryKind : ClassRecord where
  name := "A"
  lines := .ofList [(2, {
    method := "f()V"
    slot := 0
    jumps := [{ takenSlot := 1, notTakenSlot := 2 }]
    switches := [{ keys := [7], keySlots := [3], keyHits := [1], defaultSlot := some 4 }] })]
  slotCount := 5
  hits := [1, 0]
  trace := some [true]
  mapping := some
    { generated := "A.java"
      stratum := "B"
      files := [{ id := 1, name := "b", path := none }]
      ranges := [{ file := 1, inputStart := 1, count := 1, outputStart := 1, increment := 1 }] }

def writtenKinds : List UInt8 :=
  [67, 86, 83, 78, 1, 5, 1, 1, 65, 0, 0, 5, 2, 1, 0, 1, 1, 1, 1, 4, 102, 40, 41, 86, 1, 2, 0, 0, 0,
   0, 1, 1, 2, 0, 0, 1, 1, 7, 0, 0, 0, 3, 1, 1, 4, 0, 1, 6, 65, 46, 106, 97, 118, 97, 1, 66, 1, 1,
   1, 98, 0, 1, 1, 1, 1, 1, 1]

theorem wellFormed_of_decode_writtenKinds :
    decode writtenKinds = .ok (insert {} ofEveryKind) ∧ (insert {} ofEveryKind).WellFormed ∧
    (insert {} ofEveryKind).StandsIn writtenKinds ∧
    10 = (insert {} ofEveryKind).elementCount ∧
    (insert {} ofEveryKind).elementCount ≤ writtenKinds.length := by
  have hread : decode writtenKinds = .ok (insert {} ofEveryKind) := rfl
  obtain ⟨hwellFormed, hstands, hcount⟩ := wellFormed_of_decode hread
  exact ⟨hread, hwellFormed, hstands, rfl, hcount⟩

end Snapshot

end BytecodeCoverage
