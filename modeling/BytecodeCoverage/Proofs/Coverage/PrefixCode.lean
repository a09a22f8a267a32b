import BytecodeCoverage.Proofs.Bytes.Apart
import BytecodeCoverage.Proofs.Coverage.RoundTrip
import Mathlib.Data.List.Basic

/-!
# Written snapshots as a prefix code

No written snapshot is the beginning of another one: all that a snapshot holds can be told from its
bytes, and so can the place where they end.  Slots may be slots that the class does not have, and
the methods need not be in reach, so this is more than being able to read the snapshot again.

**Main definitions.**
* `Snapshot.Coherent`: classes are stored under their names, the lists of a switch go together, and
  slots and numbers of instructions are words.

**Results.**
* `ClassRecord.agree_written`: classes are told apart.
* `Snapshot.eq_of_prefix_encode`: so are snapshots.
-/

namespace BytecodeCoverage

/-! ## Coherent snapshots -/

/-- A switch has a slot and a counter for each of its keys. -/
structure SwitchRecord.Paired (switch : SwitchRecord) : Prop where
  slots : switch.keySlots.length = switch.keys.length
  hits : switch.keyHits.length = switch.keys.length

/-- The slots of a line are words, but need not be slots of its class. -/
structure LineRecord.Coherent (line : LineRecord) : Prop where
  slots : ∀ slot ∈ line.slots, slot ≤ maxWord
  instructions : ∀ n ∈ line.instructions, n ≤ maxWord
  switch : ∀ switch ∈ line.switches, switch.Paired

structure ClassRecord.Coherent (record : ClassRecord) : Prop where
  slotCount : record.slotCount ≤ maxWord
  line : ∀ e ∈ record.lines.entries, e.2.Coherent

/-- Classes are stored under their names. -/
structure Snapshot.Coherent (s : Snapshot) : Prop where
  name : ∀ e ∈ s.classes.entries, e.2.name = e.1
  record : ∀ e ∈ s.classes.entries, e.2.Coherent

namespace LineRecord.Coherent

variable {line : LineRecord}

theorem slot (h : line.Coherent) : line.slot ≤ maxWord :=
  h.slots line.slot List.mem_cons_self

theorem jump (h : line.Coherent) {jump : JumpRecord} (hjump : jump ∈ line.jumps) :
    ∀ slot ∈ jump.slots, slot ≤ maxWord := fun slot hslot =>
  h.slots slot (List.mem_cons_of_mem _
    (List.mem_append_left _ (List.mem_flatMap.2 ⟨jump, hjump, hslot⟩)))

theorem switchSlots (h : line.Coherent) {switch : SwitchRecord} (hswitch : switch ∈ line.switches) :
    ∀ slot ∈ switch.slots, slot ≤ maxWord := fun slot hslot =>
  h.slots slot (List.mem_cons_of_mem _
    (List.mem_append_right _ (List.mem_flatMap.2 ⟨switch, hswitch, hslot⟩)))

end LineRecord.Coherent

theorem LineRecord.WellFormed.coherent {line : LineRecord} {slotCount : Nat}
    (h : line.WellFormed slotCount) (hcount : slotCount ≤ maxWord) : line.Coherent where
  slots slot hslot := Nat.le_trans (Nat.le_of_lt (h.slots slot hslot)) hcount
  instructions := h.instructions
  switch switch hswitch := ⟨(h.switch switch hswitch).slots, (h.switch switch hswitch).hits⟩

theorem Snapshot.WellFormed.coherent {s : Snapshot} (h : s.WellFormed) : s.Coherent where
  name := h.name
  record e he :=
    { slotCount := (h.record e he).slotCount
      line := fun line hline => ((h.record e he).line line hline).coherent (h.record e he).slotCount }

/-! ## Parts of a class -/

open Write

theorem agree_key (m n : Int32) :
    (Write.int .i32 m.toInt).Agree (Write.int .i32 n.toInt) (m = n) :=
  (Decode.restores_key m).agree (Decode.restores_key n)

theorem JumpRecord.agree_written {jump other : JumpRecord}
    (h : ∀ slot ∈ jump.slots, slot ≤ maxWord) (h' : ∀ slot ∈ other.slots, slot ≤ maxWord) :
    jump.written.Agree other.written (jump = other) := by
  obtain ⟨taken, notTaken, takenHits, notTakenHits⟩ := jump
  obtain ⟨taken', notTaken', takenHits', notTakenHits'⟩ := other
  simp only [slots, List.mem_cons, List.not_mem_nil, or_false, forall_eq_or_imp, forall_eq] at h h'
  refine ((agree_varint h.1 h'.1).cons fun _ => (agree_varint h.2 h'.2).cons fun _ =>
    (agree_word _ _).cons fun _ => (agree_word _ _).cons fun _ => .nil).imp ?_
  rintro ⟨rfl, rfl, rfl, rfl, -⟩
  rfl

theorem SwitchRecord.agree_written {switch other : SwitchRecord} (h : switch.Paired)
    (h' : other.Paired) (hslots : ∀ slot ∈ switch.slots, slot ≤ maxWord)
    (hslots' : ∀ slot ∈ other.slots, slot ≤ maxWord) :
    switch.written.Agree other.written (switch = other) := by
  obtain ⟨keys, keySlots, keyHits, defaultSlot, defaultHits⟩ := switch
  obtain ⟨keys', keySlots', keyHits', defaultSlot', defaultHits'⟩ := other
  simp only [slots, List.mem_append, Option.mem_toList] at hslots hslots'
  refine ((agree_count _ _).cons fun hlength =>
    (agree_elements hlength fun key _ key' _ => agree_key key key').cons fun _ =>
    (agree_elements (h.slots.trans (hlength.trans h'.slots.symm)) fun slot hslot slot' hslot' =>
      agree_varint (hslots slot (.inl hslot)) (hslots' slot' (.inl hslot'))).cons fun _ =>
    (agree_elements (h.hits.trans (hlength.trans h'.hits.symm)) fun n _ n' _ =>
      agree_word n n').cons fun _ =>
    (agree_option fun slot hslot slot' hslot' =>
      agree_varint (hslots slot (.inr hslot)) (hslots' slot' (.inr hslot'))).cons fun _ =>
    (agree_word _ _).cons fun _ => .nil).imp ?_
  rintro ⟨-, rfl, rfl, rfl, rfl, rfl, -⟩
  rfl

theorem LineRecord.agree_written {methods : List String} {line other : LineRecord}
    (number number' : UInt32) (h : line.Coherent) (h' : other.Coherent)
    (hmethod : line.method ∈ methods) :
    (line.written methods number).Agree (other.written methods number')
      ((number, line) = (number', other)) := by
  have hjumps : (counted JumpRecord.written line.jumps).Agree
      (counted JumpRecord.written other.jumps) _ :=
    agree_counted fun _ hjump _ hjump' =>
      JumpRecord.agree_written (h.jump hjump) (h'.jump hjump')
  have hswitches : (counted SwitchRecord.written line.switches).Agree
      (counted SwitchRecord.written other.switches) _ :=
    agree_counted fun _ hswitch _ hswitch' =>
      SwitchRecord.agree_written (h.switch _ hswitch) (h'.switch _ hswitch')
        (h.switchSlots hswitch) (h'.switchSlots hswitch')
  refine ((agree_word number number').cons fun _ => (agree_count _ _).cons fun hindex =>
    (agree_varint h.slot h'.slot).cons fun _ => (agree_word _ _).cons fun _ =>
    (agree_option fun n hn n' hn' => agree_varint (h.instructions n hn) (h'.instructions n' hn')).cons
      fun _ => hjumps.cons fun _ => hswitches.cons fun _ => .nil).imp ?_
  obtain ⟨method, slot, hits, jumps, switches, instructions⟩ := line
  obtain ⟨method', slot', hits', jumps', switches', instructions'⟩ := other
  rintro ⟨rfl, hindex, rfl, rfl, rfl, rfl, rfl, -⟩
  obtain rfl : method = method' := (List.idxOf_inj hmethod).1 hindex
  rfl

theorem MappedFile.agree_written (file other : MappedFile) :
    file.written.Agree other.written (file = other) := by
  obtain ⟨id, name, path⟩ := file
  obtain ⟨id', name', path'⟩ := other
  refine ((agree_word _ _).cons fun _ => (agree_string _ _).cons fun _ =>
    (agree_option fun _ _ _ _ => agree_string _ _).cons fun _ => .nil).imp ?_
  rintro ⟨rfl, rfl, rfl, -⟩
  rfl

theorem LineRange.agree_written (range other : LineRange) :
    range.written.Agree other.written (range = other) := by
  obtain ⟨file, inputStart, count, outputStart, increment⟩ := range
  obtain ⟨file', inputStart', count', outputStart', increment'⟩ := other
  have hall : (LineRange.written ⟨file, inputStart, count, outputStart, increment⟩).Agree
      (LineRange.written ⟨file', inputStart', count', outputStart', increment'⟩) _ :=
    agree_elements rfl fun n _ n' _ => agree_word n n'
  refine hall.imp fun heq => ?_
  cases heq
  rfl

theorem SourceMap.agree_written (map other : SourceMap) :
    map.written.Agree other.written (map = other) := by
  obtain ⟨generated, stratum, files, ranges⟩ := map
  obtain ⟨generated', stratum', files', ranges'⟩ := other
  refine ((agree_string _ _).cons fun _ => (agree_string _ _).cons fun _ =>
    (agree_counted fun _ _ _ _ => MappedFile.agree_written _ _).cons fun _ =>
    (agree_counted fun _ _ _ _ => LineRange.agree_written _ _).cons fun _ => .nil).imp ?_
  rintro ⟨rfl, rfl, rfl, rfl, -⟩
  rfl

/-! ## Classes -/

theorem SortedMap.eq_of_entries_eq {κ ν : Type} [Ord κ] {a b : SortedMap κ ν}
    (h : a.entries = b.entries) : a = b := by
  obtain ⟨entries, _⟩ := a
  obtain ⟨entries', _⟩ := b
  cases h
  rfl

theorem ClassRecord.agree_written {record other : ClassRecord} (h : record.Coherent)
    (h' : other.Coherent) : record.written.Agree other.written (record = other) := by
  -- Lines name their methods by the places in the list that stands before them.
  have hlines (hmethods : record.methods = other.methods) :
      (Write.counted (fun e => LineRecord.written record.methods e.1 e.2) record.lines.entries).Agree
        (Write.counted (fun e => LineRecord.written other.methods e.1 e.2) other.lines.entries)
        (record.lines.entries = other.lines.entries) := by
    rw [← hmethods]
    exact agree_counted fun e he e' he' =>
      LineRecord.agree_written e.1 e'.1 (h.line e he) (h'.line e' he') (record.method_mem_methods he)
  refine ((agree_string _ _).cons fun _ =>
    (agree_option fun _ _ _ _ => agree_string _ _).cons fun _ =>
    (agree_bool _ _).cons fun _ => (agree_varint h.slotCount h'.slotCount).cons fun _ =>
    (agree_counted fun n _ n' _ => agree_word n n').cons fun _ =>
    (agree_option fun _ _ _ _ => agree_counted fun b _ b' _ => agree_bool b b').cons fun _ =>
    (agree_counted fun _ _ _ _ => agree_string _ _).cons fun hmethods =>
    (hlines hmethods).cons fun _ =>
    (agree_option fun _ _ _ _ => SourceMap.agree_written _ _).cons fun _ => .nil).imp ?_
  rintro ⟨hname, hfile, hanalyzed, hcount, hhits, htrace, -, hentries, hmapping, -⟩
  have hlines := SortedMap.eq_of_entries_eq hentries
  cases record
  cases other
  rw [ClassRecord.mk.injEq]
  exact ⟨hname, hfile, hlines, hcount, hhits, htrace, hanalyzed, hmapping⟩

namespace Snapshot

theorem Coherent.of_mem_values {s : Snapshot} (h : s.Coherent) {c : ClassRecord}
    (hc : c ∈ s.classes.values) : c.Coherent := by
  obtain ⟨e, he, rfl⟩ := List.mem_map.1 hc
  exact h.record e he

/-- A map whose entries go by a name is known by their values. -/
theorem Coherent.entries_eq {s : Snapshot} (h : s.Coherent) :
    s.classes.entries = s.classes.values.map fun c => (c.name, c) := by
  rw [SortedMap.values, List.map_map]
  refine (List.map_id _).symm.trans (List.map_congr_left fun e he => ?_)
  exact Prod.ext (h.name e he).symm rfl

theorem agree_encode {s t : Snapshot} (hs : s.Coherent) (ht : t.Coherent) :
    s.encode.Agree t.encode (s = t) := by
  have hmagic := (Decode.restores_exactly magic).agree (Decode.restores_exactly magic)
  have hversion := (Read.restores_byte version).agree (Read.restores_byte version)
  have hmode := (Decode.restores_mode s.mode).agree (Decode.restores_mode t.mode)
  have hclasses : (counted ClassRecord.written s.classes.values).Agree
      (counted ClassRecord.written t.classes.values) _ :=
    agree_counted fun _ hc _ hd =>
      ClassRecord.agree_written (hs.of_mem_values hc) (ht.of_mem_values hd)
  refine (hmagic.cons fun _ => hversion.cons fun _ => hmode.cons fun _ =>
    hclasses.cons fun _ => .nil).imp ?_
  rintro ⟨-, -, hmode, hvalues, -⟩
  have hentries : s.classes.entries = t.classes.entries := by
    rw [hs.entries_eq, ht.entries_eq, hvalues]
  have hclasses := SortedMap.eq_of_entries_eq hentries
  cases s
  cases t
  rw [Snapshot.mk.injEq]
  exact ⟨hmode, hclasses⟩

/-- A written snapshot is not the beginning of another one. -/
theorem eq_of_prefix_encode {s t : Snapshot} (hs : s.Coherent) (ht : t.Coherent)
    {bytes others : List UInt8} (hbytes : s.encode = .ok bytes) (hothers : t.encode = .ok others)
    (hbegins : bytes <+: others) : s = t := by
  obtain ⟨rest, hrest⟩ := hbegins
  exact (agree_encode hs ht hbytes hothers (hrest.trans (List.append_nil others).symm)).1

/-! ## A class with two lines -/

/-- A line with a switch. -/
def choosing : LineRecord where
  method := "f()V"
  slot := 9
  switches := [{ keys := [-1, 300], keySlots := [1, 2], keyHits := [7, 0], defaultSlot := none }]

/-- A line without branches. -/
def leaving : LineRecord where
  method := "g()V"
  slot := 3
  hits := 200

/-- A class with four slots. -/
def ofLines (lines : List (UInt32 × LineRecord)) : Snapshot where
  classes := .ofList [("A", { name := "A", lines := .ofList lines, slotCount := 4 })]

/-- The class has no slot 9, so this is never read. -/
def writtenLines : List UInt8 :=
  [67, 86, 83, 78, 1, 5, 1, 1, 65, 0, 0, 4, 0, 0, 2, 4, 103, 40, 41, 86, 4, 102, 40, 41, 86, 2, 2,
   0, 3, 200, 1, 0, 0, 0, 5, 1, 9, 0, 0, 0, 1, 2, 255, 255, 255, 255, 44, 1, 0, 0, 1, 2, 7, 0, 0,
   0, 0]

theorem coherent_ofLines {lines : List (UInt32 × LineRecord)}
    (h : (SortedMap.ofList lines).entries = [(2, leaving), (5, choosing)]) :
    (ofLines lines).Coherent where
  name e he := by
    obtain rfl := List.mem_singleton.1 he
    rfl
  record e he := by
    obtain rfl := List.mem_singleton.1 he
    have hfour : 4 ≤ maxWord := by decide
    refine ⟨hfour, fun line hline => ?_⟩
    have hpaired : ∀ switch ∈ choosing.switches, switch.Paired := by
      intro switch hswitch
      obtain rfl := List.mem_singleton.1 hswitch
      exact ⟨rfl, rfl⟩
    have hline : line ∈ [(2, leaving), (5, choosing)] := h ▸ hline
    rcases List.mem_pair.1 hline with rfl | rfl
    · exact ⟨by decide, nofun, nofun⟩
    · exact ⟨by decide, nofun, hpaired⟩

theorem eq_of_prefix_encode_ofLines :
    (ofLines [(2, leaving), (5, choosing)]).encode = .ok writtenLines ∧
    (ofLines [(5, choosing), (2, leaving)]).encode = .ok writtenLines ∧
    ofLines [(2, leaving), (5, choosing)] = ofLines [(5, choosing), (2, leaving)] := by
  have hforth : (ofLines [(2, leaving), (5, choosing)]).encode = .ok writtenLines := rfl
  have hback : (ofLines [(5, choosing), (2, leaving)]).encode = .ok writtenLines := rfl
  exact ⟨hforth, hback, eq_of_prefix_encode (coherent_ofLines rfl) (coherent_ofLines rfl) hforth hback
    (List.prefix_refl _)⟩

end Snapshot

end BytecodeCoverage
