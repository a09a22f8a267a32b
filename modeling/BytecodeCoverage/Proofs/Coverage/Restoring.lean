import BytecodeCoverage.Proofs.Coverage.WellFormed
import BytecodeCoverage.Proofs.SortedMap

/-!
# Reading the parts of a snapshot

Each part of a well-formed snapshot is read again from what was written of it, whatever follows,
except that a line is read only if its method is in reach.

**Main definitions.**
* `Decode.RestoresIf`: what was written is read again if the bytes after it suffice.

**Results.**
* `Decode.restoresIf_line`, `Decode.restoresIf_classRecord`, `Decode.restoresIf_classes`: lines and
  classes.
* `Decode.allInReach_classes`: a few methods are always in reach.
-/

namespace BytecodeCoverage

namespace Decode

variable {α β : Type}

/-! ## Readers that may find too few bytes -/

/-- The reader gives what was written if the number of bytes after it is as it should be;
otherwise it finds fewer bytes than there should be elements. -/
def RestoresIf (item : Get α) (w : Written) (x : α) (P : Nat → Prop) : Prop :=
  ∃ bytes, w = .ok bytes ∧ ∀ pos rest,
    (P rest.length ∧ item ⟨pos, bytes ++ rest⟩ = (.ok x, ⟨pos + bytes.length, rest⟩)) ∨
    (¬ P rest.length ∧ ∃ n left at' r,
      item ⟨pos, bytes ++ rest⟩ = (.error (.bytes (.count n left at')), r))

theorem restoresIf_of_restores {item : Get α} {w : Written} {x : α} (h : item.Restores w x) :
    RestoresIf item w x fun _ => True := by
  obtain ⟨bytes, rfl, hread⟩ := h
  exact ⟨bytes, rfl, fun pos rest => .inl ⟨trivial, hread pos rest⟩⟩

theorem RestoresIf.restores {item : Get α} {w : Written} {x : α} {P : Nat → Prop}
    (h : RestoresIf item w x P) (hP : ∀ n, P n) : item.Restores w x := by
  obtain ⟨bytes, rfl, hread⟩ := h
  refine ⟨bytes, rfl, fun pos rest => ?_⟩
  rcases hread pos rest with ⟨-, hread⟩ | ⟨hfar, -⟩
  · exact hread
  · exact absurd (hP _) hfar

theorem RestoresIf.congr {item : Get α} {w : Written} {x : α} {P Q : Nat → Prop}
    (h : RestoresIf item w x P) (hPQ : ∀ n, P n ↔ Q n) : RestoresIf item w x Q := by
  obtain rfl : P = Q := funext fun n => propext (hPQ n)
  exact h

theorem RestoresIf.bind {first : Get α} {next : α → Get β} {w : Written} {ws : List Written}
    {x : α} {y : β} {P Q : Nat → Prop} (h : RestoresIf first w x P)
    (hn : RestoresIf (next x) (Write.sequence ws) y Q) :
    RestoresIf (first >>= next) (Write.sequence (w :: ws)) y
      fun after => P ((Write.sequence ws).size + after) ∧ Q after := by
  obtain ⟨bytes, rfl, hread⟩ := h
  obtain ⟨others, hws, hothers⟩ := hn
  refine ⟨bytes ++ others, Write.sequence_cons rfl hws, fun pos rest => ?_⟩
  rw [hws, Written.size, List.append_assoc]
  rcases hread pos (others ++ rest) with ⟨hP, hread⟩ | ⟨hP, n, left, at', r, hread⟩
  · rw [Read.bind_ok hread, List.length_append, ← Nat.add_assoc]
    rcases hothers (pos + bytes.length) rest with ⟨hQ, hrest⟩ | ⟨hQ, hrest⟩
    · exact .inl ⟨⟨List.length_append ▸ hP, hQ⟩, hrest⟩
    · exact .inr ⟨fun h => hQ h.2, hrest⟩
  · rw [Read.bind_error hread]
    exact .inr ⟨fun h => hP (List.length_append ▸ h.1), n, left, at', r, rfl⟩

/-- What is restored anyway makes no difference. -/
theorem RestoresIf.after {first : Get α} {next : α → Get β} {w : Written} {ws : List Written}
    {x : α} {y : β} {P : Nat → Prop} (h : first.Restores w x)
    (hn : RestoresIf (next x) (Write.sequence ws) y P) :
    RestoresIf (first >>= next) (Write.sequence (w :: ws)) y P :=
  ((restoresIf_of_restores h).bind hn).congr fun _ => and_iff_right trivial

/-- A number of elements is read if what follows has enough bytes. -/
theorem RestoresIf.count {next : Nat → Get β} {n : Nat} {w : Written} {ws : List Written} {y : β}
    {P : Nat → Prop} (h : n ≤ maxWord) (hw : w ∈ ws) (hsize : n ≤ w.size)
    (hn : RestoresIf (next n) (Write.sequence ws) y P) :
    RestoresIf (plain Read.count >>= next) (Write.sequence (Write.count n :: ws)) y P := by
  obtain ⟨front, hfront, hvarint⟩ := Read.restores_varint h
  obtain ⟨others, hws, hothers⟩ := hn
  have hcount : Write.count n = .ok front := by rw [Write.count, if_pos h, hfront]
  obtain ⟨part, rfl, hle⟩ := Write.exists_of_mem hw hws
  rw [Written.size] at hsize
  refine ⟨front ++ others, Write.sequence_cons hcount hws, fun pos rest => ?_⟩
  have hread : plain Read.count ⟨pos, front ++ others ++ rest⟩ =
      (.ok n, ⟨pos + front.length, others ++ rest⟩) := by
    refine Read.mapFault_ok _ ?_
    rw [List.append_assoc, Read.count_of_varint (hvarint pos _), if_neg]
    rw [List.length_append]
    omega
  rw [Read.bind_ok hread, List.length_append, ← Nat.add_assoc]
  exact hothers _ _

/-! ## Parts -/

theorem restores_nat {n : Nat} (h : n ≤ maxWord) : nat.Restores (Write.varint n) n :=
  (Read.restores_varint h).mapFault _

theorem restores_word (n : UInt32) : word.Restores (Write.varint n.toNat) n := by
  have hn : n.toNat ≤ maxWord := Nat.le_of_lt_succ n.toNat_lt
  refine (restores_nat hn).map fun r => ?_
  rw [UInt32.ofNat_toNat]
  rfl

theorem restores_slot {n slotCount : Nat} (h : n < slotCount) (hcount : slotCount ≤ maxWord) :
    (slot slotCount).Restores (Write.varint n) n := by
  refine (restores_nat (Nat.le_of_lt (Nat.lt_of_lt_of_le h hcount))).map fun r => ?_
  rw [if_pos h]
  rfl

theorem restores_option {item : Get α} {write : α → Written} {x : Option α}
    (h : ∀ y ∈ x, item.Restores (write y) y) :
    (option item).Restores (Write.option write x) x := by
  cases x with
  | none => exact ((Read.restores_bool false).mapFault _).map fun _ => rfl
  | some y =>
      exact ((Read.restores_bool true).mapFault _).bind
        ((h y rfl).bind (Read.restores_nil fun _ => rfl))

theorem restores_counted {item : Get α} {write : α → Written} {xs : List α}
    (hlength : xs.length ≤ maxWord) (h : ∀ x ∈ xs, item.Restores (write x) x)
    (hpos : ∀ x ∈ xs, 0 < (write x).size) :
    (counted item).Restores (Write.counted write xs) xs := by
  have hitems := Read.restores_times h
  have hsize := hitems.length_le_size hpos
  refine (RestoresIf.count hlength List.mem_cons_self hsize (restoresIf_of_restores ?_)).restores
    fun _ => trivial
  rw [Write.sequence_single]
  exact hitems

theorem restores_jump {jump : JumpRecord} {slotCount : Nat}
    (h : ∀ slot ∈ jump.slots, slot < slotCount) (hcount : slotCount ≤ maxWord) :
    (Decode.jump slotCount).Restores jump.written jump := by
  have htaken := h jump.takenSlot List.mem_cons_self
  have hnotTaken := h jump.notTakenSlot (List.mem_cons_of_mem _ List.mem_cons_self)
  exact (restores_slot htaken hcount).bind
    ((restores_slot hnotTaken hcount).bind
      ((restores_word _).bind ((restores_word _).bind (Read.restores_nil fun _ => rfl))))

theorem restores_key (key : Int32) : Decode.key.Restores (Write.int .i32 key.toInt) key := by
  have hkey : IntKind.i32.Holds key.toInt := by
    have := key.le_toInt
    have := key.toInt_lt
    have hmodulus : IntKind.i32.modulus = 4294967296 := rfl
    simp only [IntKind.Holds, IntKind.isSigned, if_true, hmodulus]
    omega
  refine ((Read.restores_int hkey).mapFault _).map fun r => ?_
  rw [Int32.ofInt_toInt]
  rfl

theorem restores_switch {switch : SwitchRecord} {slotCount : Nat} (h : switch.WellFormed)
    (hslots : ∀ slot ∈ switch.slots, slot < slotCount) (hcount : slotCount ≤ maxWord) :
    (Decode.switch slotCount).Restores switch.written switch := by
  have hkeys : (Decode.key.times switch.keys.length).Restores
      (Write.elements (fun key => Write.int .i32 key.toInt) switch.keys) switch.keys :=
    Read.restores_times fun key _ => restores_key key
  have hkeySlots : ((slot slotCount).times switch.keys.length).Restores
      (Write.elements Write.varint switch.keySlots) switch.keySlots := by
    rw [← h.slots]
    exact Read.restores_times fun n hn =>
      restores_slot (hslots n (List.mem_append_left _ hn)) hcount
  have hkeyHits : (word.times switch.keys.length).Restores
      (Write.elements (fun n => Write.varint n.toNat) switch.keyHits) switch.keyHits := by
    rw [← h.hits]
    exact Read.restores_times fun n _ => restores_word n
  have hdefault : (option (slot slotCount)).Restores
      (Write.option Write.varint switch.defaultSlot) switch.defaultSlot :=
    restores_option fun n hn =>
      restores_slot (hslots n (List.mem_append_right _ (Option.mem_toList.2 hn))) hcount
  have hsize := hkeys.length_le_size fun key _ => by
    rw [Write.int, Written.size, Bytes.ofInt, Bytes.length_ofNat]
    decide
  refine (RestoresIf.count h.size List.mem_cons_self hsize (restoresIf_of_restores ?_)).restores
    fun _ => trivial
  exact hkeys.bind (hkeySlots.bind (hkeyHits.bind (hdefault.bind
    ((restores_word switch.defaultHits).bind (Read.restores_nil fun _ => rfl)))))

/-! ## Lines -/

/-- An index is read if it is not greater than the number of bytes after it. -/
theorem restoresIf_method {methods : List String} {name : String} (hmem : name ∈ methods)
    (hlength : methods.length ≤ maxWord) :
    RestoresIf (method methods) (Write.count (methods.idxOf name)) name
      fun after => methods.idxOf name ≤ after := by
  have hlt : methods.idxOf name < methods.length := List.idxOf_lt_length_of_mem hmem
  have hle : methods.idxOf name ≤ maxWord := by omega
  obtain ⟨bytes, hbytes, hread⟩ := Read.restores_varint hle
  refine ⟨bytes, by rw [Write.count, if_pos hle, hbytes], fun pos rest => ?_⟩
  have hcount := Read.count_of_varint (hread pos rest)
  by_cases hfar : rest.length < methods.idxOf name
  · rw [if_pos hfar] at hcount
    exact .inr ⟨Nat.not_le.2 hfar, _, _, _, _,
      Read.bind_error (Read.mapFault_error DecodeFault.bytes hcount)⟩
  · rw [if_neg hfar] at hcount
    refine .inl ⟨Nat.not_lt.1 hfar, ?_⟩
    refine (Read.bind_ok (Read.mapFault_ok DecodeFault.bytes hcount)).trans ?_
    rw [List.getElem?_eq_getElem hlt, List.getElem_idxOf hlt]
    rfl

theorem restoresIf_line {methods : List String} {line : LineRecord} {slotCount : Nat}
    (number : UInt32) (h : line.WellFormed slotCount) (hcount : slotCount ≤ maxWord)
    (hmem : line.method ∈ methods) (hlength : methods.length ≤ maxWord) :
    RestoresIf (Decode.line methods slotCount) (line.written methods number) (number, line)
      fun after => methods.idxOf line.method ≤ line.afterMethod.size + after := by
  have hslot := h.slots line.slot List.mem_cons_self
  have hjump : ∀ jump ∈ line.jumps, (Decode.jump slotCount).Restores jump.written jump := by
    intro jump hjump
    refine restores_jump (fun slot hslot => h.slots slot ?_) hcount
    exact List.mem_cons_of_mem _
      (List.mem_append_left _ (List.mem_flatMap.2 ⟨jump, hjump, hslot⟩))
  have hswitch : ∀ switch ∈ line.switches,
      (Decode.switch slotCount).Restores switch.written switch := by
    intro switch hswitch
    refine restores_switch (h.switch switch hswitch) (fun slot hslot => h.slots slot ?_) hcount
    exact List.mem_cons_of_mem _
      (List.mem_append_right _ (List.mem_flatMap.2 ⟨switch, hswitch, hslot⟩))
  have hjumps := restores_counted h.jumps hjump fun jump hmem =>
    (hjump jump hmem).size_pos (Write.size_varint_pos _)
  have hswitches := restores_counted h.switches hswitch fun switch hmem =>
    (hswitch switch hmem).size_pos (Write.size_count_pos (h.switch switch hmem).size)
  refine RestoresIf.after (restores_word number) ?_
  refine ((restoresIf_method hmem hlength).bind (restoresIf_of_restores ?_)).congr
    fun _ => and_iff_left trivial
  exact (restores_slot hslot hcount).bind
    ((restores_word _).bind
      ((restores_option fun n hn => restores_nat (h.instructions n hn)).bind
        (hjumps.bind (hswitches.bind (Read.restores_nil fun _ => rfl)))))

/-- Lines with numbers of their own, after the ones in `known`. -/
theorem restoresIf_lines (className : String) {methods : List String} {slotCount : Nat}
    (hcount : slotCount ≤ maxWord) (hlength : methods.length ≤ maxWord)
    {entries : List (UInt32 × LineRecord)}
    (h : ∀ e ∈ entries, e.2.WellFormed slotCount ∧ e.2.method ∈ methods)
    (hnodup : (entries.map Prod.fst).Nodup) (known : SortedMap UInt32 LineRecord)
    (hnew : ∀ e ∈ entries, known.get? e.1 = none) :
    RestoresIf (Decode.lines className methods slotCount entries.length known)
      (Write.elements (fun e => LineRecord.written methods e.1 e.2) entries)
      (known.insertAll entries) (LineRecord.AllInReach methods entries) := by
  induction entries generalizing known with
  | nil => exact restoresIf_of_restores (Read.restores_nil fun _ => rfl)
  | cons e rest ih =>
      rw [List.map_cons, List.nodup_cons] at hnodup
      obtain ⟨hwell, hmem⟩ := h e List.mem_cons_self
      refine (restoresIf_line e.1 hwell hcount hmem hlength).bind ?_
      have hcontains : known.contains e.1 = false := by
        rw [SortedMap.contains, hnew e List.mem_cons_self]
        rfl
      dsimp only
      rw [hcontains]
      refine ih (fun other hother => h other (List.mem_cons_of_mem _ hother)) hnodup.2
        (known.insert e.1 e.2) fun other hother => ?_
      have hne : other.1 ≠ e.1 := fun heq =>
        hnodup.1 (heq ▸ List.mem_map_of_mem hother)
      rw [SortedMap.get?_insert_of_ne _ _ hne]
      exact hnew other (List.mem_cons_of_mem _ hother)

/-! ## Classes -/

theorem restores_file {file : MappedFile}
    (h : Utf8.Short file.name ∧ ∀ path ∈ file.path, Utf8.Short path) :
    Decode.file.Restores file.written file :=
  (restores_word _).bind
    (((Read.restores_string h.1).mapFault _).bind
      (((Read.restores_optionalString h.2).mapFault _).bind (Read.restores_nil fun _ => rfl)))

theorem restores_range (range : LineRange) : Decode.range.Restores range.written range :=
  (restores_word _).bind
    ((restores_word _).bind
      ((restores_word _).bind
        ((restores_word _).bind ((restores_word _).bind (Read.restores_nil fun _ => rfl)))))

theorem restores_sourceMap {map : SourceMap} (h : map.WellFormed) :
    Decode.sourceMap.Restores map.written map := by
  have hfiles := restores_counted h.files (fun file hfile => restores_file (h.file file hfile))
    fun file hfile => (restores_file (h.file file hfile)).size_pos (Write.size_varint_pos _)
  have hranges := restores_counted h.ranges (fun range _ => restores_range range)
    fun range _ => (restores_range range).size_pos (Write.size_varint_pos _)
  exact ((Read.restores_string h.generated).mapFault _).bind
    (((Read.restores_string h.stratum).mapFault _).bind
      (hfiles.bind (hranges.bind (Read.restores_nil fun _ => rfl))))

theorem restoresIf_classRecord {record : ClassRecord} (h : record.WellFormed) :
    RestoresIf Decode.classRecord record.written record fun after =>
      LineRecord.AllInReach record.methods record.lines.entries
        ((Write.option SourceMap.written record.mapping).size + after) := by
  have hmethods := h.length_methods_le
  have hstring : ∀ {s : String}, Utf8.Short s → (plain Read.string).Restores (Write.string s) s :=
    fun hs => (Read.restores_string hs).mapFault _
  have hbool : ∀ b, (plain Read.bool).Restores (Write.bool b) b :=
    fun b => (Read.restores_bool b).mapFault _
  have hhits := restores_counted h.hits (fun n _ => restores_word n) fun n _ =>
    Write.size_varint_pos n.toNat
  have htrace := restores_option fun flags hflags =>
    restores_counted (h.trace flags hflags) (fun b _ => hbool b) fun b _ => Nat.one_pos
  have hnames := restores_counted hmethods (fun name hname => hstring (h.short_of_mem_methods hname))
    fun name hname => Read.size_string_pos (h.short_of_mem_methods hname)
  have hlines := restoresIf_lines record.name h.slotCount hmethods
    (fun e he => ⟨h.line e he, record.method_mem_methods he⟩) record.lines.nodup_keys .empty fun _ _ => rfl
  rw [show SortedMap.empty.insertAll record.lines.entries = record.lines from
    record.lines.ofList_entries] at hlines
  have hmapping := restores_option fun map hmap => restores_sourceMap (h.mapping map hmap)
  have hsize : record.lines.entries.length ≤
      (Write.elements (fun e => LineRecord.written record.methods e.1 e.2)
        record.lines.entries).size := by
    obtain ⟨bytes, hbytes, -⟩ := hlines
    rw [hbytes]
    refine Write.length_le_size_elements (fun e he => ?_) hbytes
    obtain ⟨_, hline, -⟩ :=
      restoresIf_line e.1 (h.line e he) h.slotCount (record.method_mem_methods he) hmethods
    exact Write.size_sequence_pos hline (Write.size_varint_pos _)
  refine .after (hstring h.name) <| .after ((Read.restores_optionalString h.sourceFile).mapFault _) <|
    .after (hbool _) <| .after (restores_nat h.slotCount) <| .after hhits <| .after htrace <|
    .after hnames ?_
  have hflat (ws : List Written) :
      Write.sequence
          (Write.counted (fun e => LineRecord.written record.methods e.1 e.2)
            record.lines.entries :: ws) =
        Write.sequence
          (Write.count record.lines.entries.length ::
            Write.elements (fun e => LineRecord.written record.methods e.1 e.2)
              record.lines.entries :: ws) :=
    Write.sequence_sequence _ ws
  rw [hflat]
  refine RestoresIf.count h.lines List.mem_cons_self hsize ?_
  refine (hlines.bind (restoresIf_of_restores
    (hmapping.bind (Read.restores_nil fun _ => rfl)))).congr fun after => ?_
  rw [Write.sequence_single]
  exact and_iff_left trivial

/-- Classes with names of their own, after the ones in `s`. -/
theorem restoresIf_classes {records : List ClassRecord} (h : ∀ c ∈ records, c.WellFormed)
    (hnodup : (records.map ClassRecord.name).Nodup) (s : Snapshot)
    (hnew : ∀ c ∈ records, s.classes.get? c.name = none) :
    RestoresIf (Decode.classes records.length s) (Write.elements ClassRecord.written records)
      (records.foldl Snapshot.insert s) (ClassRecord.AllInReach records) := by
  induction records generalizing s with
  | nil => exact restoresIf_of_restores (Read.restores_nil fun _ => rfl)
  | cons c rest ih =>
      rw [List.map_cons, List.nodup_cons] at hnodup
      refine (restoresIf_classRecord (h c List.mem_cons_self)).bind ?_
      have hcontains : s.classes.contains c.name = false := by
        rw [SortedMap.contains, hnew c List.mem_cons_self]
        rfl
      rw [hcontains]
      refine ih (fun other hother => h other (List.mem_cons_of_mem _ hother)) hnodup.2
        (s.insert c) fun other hother => ?_
      have hne : other.name ≠ c.name := fun heq =>
        hnodup.1 (heq ▸ List.mem_map_of_mem hother)
      rw [Snapshot.insert, SortedMap.get?_insert_of_ne _ _ hne]
      exact hnew other (List.mem_cons_of_mem _ hother)

/-! ## A few methods -/

/-- Each of the five parts after the index takes a byte. -/
theorem five_le_size_afterMethod {line : LineRecord} {bytes : List UInt8}
    (h : line.afterMethod = .ok bytes) : 5 ≤ line.afterMethod.size := by
  rw [h]
  refine Write.length_le_of_pos (fun w hw => ?_) h
  obtain ⟨part, hpart, -⟩ := Write.exists_of_mem hw h
  simp only [List.mem_cons, List.not_mem_nil, or_false] at hw
  rcases hw with rfl | rfl | rfl | rfl | rfl
  · exact Write.size_varint_pos _
  · exact Write.size_varint_pos _
  · exact Write.size_option_pos hpart
  · exact Write.size_counted_pos hpart
  · exact Write.size_counted_pos hpart

theorem allInReach_lines {methods : List String} (hfew : methods.length ≤ 7)
    {entries : List (UInt32 × LineRecord)} {after : Nat} (hafter : 0 < after)
    (h : ∀ e ∈ entries, e.2.method ∈ methods ∧ ∃ bytes, e.2.afterMethod = .ok bytes) :
    LineRecord.AllInReach methods entries after := by
  induction entries with
  | nil => trivial
  | cons e rest ih =>
      obtain ⟨hmem, bytes, hbytes⟩ := h e List.mem_cons_self
      have hlt := List.idxOf_lt_length_of_mem hmem
      have hle := five_le_size_afterMethod hbytes
      constructor
      · omega
      · exact ih fun other hother => h other (List.mem_cons_of_mem _ hother)

/-- The last line of a class is followed by six bytes at least. -/
theorem allInReach_classes {records : List ClassRecord} (h : ∀ c ∈ records, c.WellFormed)
    (hfew : ∀ c ∈ records, c.methods.length ≤ 7) (after : Nat) :
    ClassRecord.AllInReach records after := by
  induction records with
  | nil => trivial
  | cons c rest ih =>
      have hc := h c List.mem_cons_self
      constructor
      · obtain ⟨bytes, hbytes, -⟩ :=
          restores_option fun map hmap => restores_sourceMap (hc.mapping map hmap)
        have hpos := Write.size_option_pos hbytes
        refine allInReach_lines (hfew c List.mem_cons_self) (Nat.add_pos_left hpos _) fun e he => ?_
        have hmem := c.method_mem_methods he
        obtain ⟨_, hline, -⟩ := restoresIf_line e.1 (hc.line e he) hc.slotCount hmem
          hc.length_methods_le
        obtain ⟨_, htail⟩ := Write.exists_tail hline
        exact ⟨hmem, Write.exists_tail htail⟩
      · exact ih (fun other hother => h other (List.mem_cons_of_mem _ hother))
          fun other hother => hfew other (List.mem_cons_of_mem _ hother)

end Decode

end BytecodeCoverage
