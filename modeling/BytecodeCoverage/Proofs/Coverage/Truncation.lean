import BytecodeCoverage.Proofs.Coverage.Content
import BytecodeCoverage.Proofs.Coverage.PrefixCode

/-!
# Snapshots that are cut off

Bytes that are read as a snapshot are read as one neither when they are cut off nor when more bytes
follow.  What is written of a snapshot is never read as a snapshot when it is cut off, even if the
whole cannot be read either.

**Main definitions.**
* `Decode.Recovers`: what was written is not read as anything else.

**Results.**
* `Decode.recovers_content`: a written snapshot is not read as another one.
* `Snapshot.decode_prefix_free`: nothing that is read goes on or stops early.
-/

namespace BytecodeCoverage

namespace Decode

variable {α β : Type}

/-- If the reader succeeds on what was written, it gives what was written and has read just that. -/
def Recovers (item : Get α) (w : Written) (x : α) : Prop :=
  ∀ ⦃bytes⦄, w = .ok bytes → ∀ ⦃pos rest y r⦄,
    item ⟨pos, bytes ++ rest⟩ = (.ok y, r) → y = x ∧ r.rest = rest

theorem recovers_of_restores {item : Get α} {w : Written} {x : α} (h : item.Restores w x) :
    Recovers item w x := by
  obtain ⟨bytes, rfl, hrestores⟩ := h
  rintro _ ⟨⟩ pos rest y r hread
  rw [hrestores, Prod.mk.injEq, Except.ok.injEq] at hread
  obtain ⟨rfl, rfl⟩ := hread
  exact ⟨rfl, rfl⟩

theorem recovers_nil (x : α) : Recovers (pure x) (Write.sequence []) x :=
  recovers_of_restores (Read.restores_nil fun _ => rfl)

theorem Recovers.bind {first : Get α} {next : α → Get β} {w : Written} {ws : List Written} {x : α}
    {y : β} (h : Recovers first w x) (hnext : Recovers (next x) (Write.sequence ws) y) :
    Recovers (first >>= next) (Write.sequence (w :: ws)) y := by
  intro bytes hbytes pos rest z r hread
  obtain ⟨front, others, hw, hws, rfl⟩ := Write.exists_of_sequence_cons hbytes
  obtain ⟨x', ⟨pos', rest'⟩, hfirst, hrest⟩ := Read.bind_eq_ok.1 hread
  rw [List.append_assoc] at hfirst
  obtain ⟨rfl, rfl⟩ := h hw hfirst
  exact hnext hws hrest

/-- What is made of a part may fail. -/
theorem Recovers.next {first : Get α} {next : α → Get β} {w : Written} {x : α} {y : β}
    (h : Recovers first w x) (hnext : Recovers (next x) (Write.sequence []) y) :
    Recovers (first >>= next) w y := by
  rw [← Write.sequence_single w]
  exact h.bind hnext

theorem recovers_fail (e : DecodeFault) (w : Written) (x : α) : Recovers (Read.fail e) w x := by
  intro bytes hbytes pos rest y r hread
  cases hread

theorem Recovers.ite {p : Prop} [Decidable p] {item other : Get α} {w : Written} {x : α}
    (h : Recovers item w x) (hother : Recovers other w x) :
    Recovers (if p then item else other) w x := by
  split
  · exact h
  · exact hother

theorem recovers_times {item : Get α} {write : α → Written} {xs : List α}
    (h : ∀ x ∈ xs, Recovers item (write x) x) :
    Recovers (item.times xs.length) (Write.elements write xs) xs := by
  induction xs with
  | nil => exact recovers_nil []
  | cons x xs ih =>
      have hrest := ih fun y hy => h y (List.mem_cons_of_mem _ hy)
      exact (h x List.mem_cons_self).bind (hrest.next (recovers_nil _))

theorem recovers_count (n : Nat) : Recovers (plain Read.count) (Write.count n) n := by
  intro bytes hbytes pos rest m r hread
  have hn := Write.le_of_count hbytes
  rw [Write.count, if_pos hn] at hbytes
  have hvarint := (Read.count_eq_ok.1 (Read.mapFault_eq_ok.1 hread)).1
  exact recovers_of_restores (restores_nat hn) hbytes (Read.mapFault_eq_ok.2 hvarint)

theorem recovers_counted {item : Get α} {write : α → Written} {xs : List α}
    (h : ∀ x ∈ xs, Recovers item (write x) x) :
    Recovers (counted item) (Write.counted write xs) xs := by
  refine (recovers_count xs.length).bind ?_
  rw [Write.sequence_single]
  exact recovers_times h

/-- The number of elements may be read apart from the elements. -/
theorem Recovers.counted {next : Nat → Get β} {write : α → Written} {xs : List α}
    {ws : List Written} {y : β}
    (h : Recovers (next xs.length) (Write.sequence (Write.elements write xs :: ws)) y) :
    Recovers (plain Read.count >>= next) (Write.sequence (Write.counted write xs :: ws)) y := by
  rw [Write.counted, Write.sequence_sequence]
  exact (recovers_count xs.length).bind h

theorem recovers_option {item : Get α} {write : α → Written} {x : Option α}
    (h : ∀ y ∈ x, Recovers item (write y) y) :
    Recovers (option item) (Write.option write x) x := by
  have hflag (b : Bool) : Recovers (plain Read.bool) (Write.bool b) b :=
    recovers_of_restores ((Read.restores_bool b).mapFault _)
  cases x with
  | none => exact (hflag false).next (recovers_nil none)
  | some y => exact (hflag true).bind ((h y rfl).bind (recovers_nil (some y)))

/-! ## Parts of a class -/

theorem recovers_word (n : UInt32) : Recovers word (Write.varint n.toNat) n :=
  recovers_of_restores (restores_word n)

theorem recovers_string (s : String) : Recovers (plain Read.string) (Write.string s) s :=
  fun _ hbytes =>
    recovers_of_restores ((Read.restores_string (Write.length_le_of_string hbytes)).mapFault _) hbytes

theorem recovers_optionalString (s : Option String) :
    Recovers (plain Read.optionalString) (Write.option Write.string s) s := by
  intro bytes hbytes
  refine recovers_of_restores ((Read.restores_optionalString fun text htext => ?_).mapFault _) hbytes
  obtain rfl : s = some text := htext
  obtain ⟨-, others, -, htail, -⟩ := Write.exists_of_sequence_cons hbytes
  rw [Write.sequence_single] at htail
  exact Write.length_le_of_string htail

/-- A slot that the class does not have is not read at all. -/
theorem recovers_slot (slotCount : Nat) {n : Nat} (h : n ≤ maxWord) :
    Recovers (slot slotCount) (Write.varint n) n :=
  (recovers_of_restores (restores_nat h)).next (.ite (recovers_nil n) (recovers_fail _ _ _))

theorem recovers_jump (slotCount : Nat) {jump : JumpRecord}
    (h : ∀ slot ∈ jump.slots, slot ≤ maxWord) :
    Recovers (Decode.jump slotCount) jump.written jump :=
  have htaken := h jump.takenSlot List.mem_cons_self
  have hnotTaken := h jump.notTakenSlot (List.mem_cons_of_mem _ List.mem_cons_self)
  (recovers_slot slotCount htaken).bind ((recovers_slot slotCount hnotTaken).bind
    ((recovers_word _).bind ((recovers_word _).bind (recovers_nil _))))

theorem recovers_switch (slotCount : Nat) {switch : SwitchRecord} (h : switch.Paired)
    (hslots : ∀ slot ∈ switch.slots, slot ≤ maxWord) :
    Recovers (Decode.switch slotCount) switch.written switch := by
  have hkeys : Recovers (Decode.key.times switch.keys.length)
      (Write.elements (fun key => Write.int .i32 key.toInt) switch.keys) switch.keys :=
    recovers_times fun key _ => recovers_of_restores (restores_key key)
  have hkeySlots : Recovers ((slot slotCount).times switch.keys.length)
      (Write.elements Write.varint switch.keySlots) switch.keySlots := by
    rw [← h.slots]
    exact recovers_times fun n hn => recovers_slot slotCount (hslots n (List.mem_append_left _ hn))
  have hkeyHits : Recovers (word.times switch.keys.length)
      (Write.elements (fun n => Write.varint n.toNat) switch.keyHits) switch.keyHits := by
    rw [← h.hits]
    exact recovers_times fun n _ => recovers_word n
  have hdefault : Recovers (option (slot slotCount))
      (Write.option Write.varint switch.defaultSlot) switch.defaultSlot :=
    recovers_option fun n hn =>
      recovers_slot slotCount (hslots n (List.mem_append_right _ (Option.mem_toList.2 hn)))
  exact (recovers_count _).bind (hkeys.bind (hkeySlots.bind (hkeyHits.bind (hdefault.bind
    ((recovers_word switch.defaultHits).bind (recovers_nil _))))))

/-- A method that is not in reach is not read at all. -/
theorem recovers_method {methods : List String} {name : String} (hmem : name ∈ methods) :
    Recovers (method methods) (Write.count (methods.idxOf name)) name := by
  have hlt := List.idxOf_lt_length_of_mem hmem
  refine (recovers_count _).next ?_
  rw [List.getElem?_eq_getElem hlt, List.getElem_idxOf hlt]
  exact recovers_nil name

theorem recovers_line {methods : List String} (slotCount : Nat) {line : LineRecord}
    (number : UInt32) (h : line.Coherent) (hmem : line.method ∈ methods) :
    Recovers (Decode.line methods slotCount) (line.written methods number) (number, line) :=
  have hjumps := recovers_counted fun _ hjump => recovers_jump slotCount (h.jump hjump)
  have hswitches := recovers_counted fun _ hswitch =>
    recovers_switch slotCount (h.switch _ hswitch) (h.switchSlots hswitch)
  have hinstructions := recovers_option fun n hn =>
    recovers_of_restores (restores_nat (h.instructions n hn))
  (recovers_word number).bind ((recovers_method hmem).bind ((recovers_slot slotCount h.slot).bind
    ((recovers_word _).bind (hinstructions.bind (hjumps.bind (hswitches.bind (recovers_nil _)))))))

theorem recovers_lines (className : String) {methods : List String} (slotCount : Nat)
    {entries : List (UInt32 × LineRecord)}
    (h : ∀ e ∈ entries, e.2.Coherent ∧ e.2.method ∈ methods) (known : SortedMap UInt32 LineRecord) :
    Recovers (Decode.lines className methods slotCount entries.length known)
      (Write.elements (fun e => LineRecord.written methods e.1 e.2) entries)
      (known.insertAll entries) := by
  induction entries generalizing known with
  | nil => exact recovers_nil known
  | cons e rest ih =>
      obtain ⟨hcoherent, hmem⟩ := h e List.mem_cons_self
      exact (recovers_line slotCount e.1 hcoherent hmem).bind (.ite (recovers_fail _ _ _)
        (ih (fun other hother => h other (List.mem_cons_of_mem _ hother)) _))

theorem recovers_file (file : MappedFile) : Recovers Decode.file file.written file :=
  (recovers_word _).bind ((recovers_string _).bind ((recovers_optionalString _).bind
    (recovers_nil _)))

theorem recovers_sourceMap (map : SourceMap) : Recovers Decode.sourceMap map.written map :=
  have hfiles := recovers_counted fun file _ => recovers_file file
  have hranges := recovers_counted fun range _ => recovers_of_restores (restores_range range)
  (recovers_string _).bind ((recovers_string _).bind (hfiles.bind (hranges.bind (recovers_nil _))))

/-! ## Classes -/

theorem recovers_classRecord {record : ClassRecord} (h : record.Coherent) :
    Recovers Decode.classRecord record.written record := by
  have hbool (b : Bool) : Recovers (plain Read.bool) (Write.bool b) b :=
    recovers_of_restores ((Read.restores_bool b).mapFault _)
  have hlines := recovers_lines record.name record.slotCount
    (fun e he => ⟨h.line e he, record.method_mem_methods he⟩) .empty
  rw [show SortedMap.empty.insertAll record.lines.entries = record.lines from
    record.lines.ofList_entries] at hlines
  have hmapping : Recovers (option Decode.sourceMap)
      (Write.option SourceMap.written record.mapping) record.mapping :=
    recovers_option fun map _ => recovers_sourceMap map
  exact (recovers_string _).bind <| (recovers_optionalString _).bind <| (hbool _).bind <|
    (recovers_of_restores (restores_nat h.slotCount)).bind <|
    (recovers_counted fun n _ => recovers_word n).bind <|
    (recovers_option fun _ _ => recovers_counted fun b _ => hbool b).bind <|
    (recovers_counted fun _ _ => recovers_string _).bind <| .counted <|
    hlines.bind <| hmapping.bind <| recovers_nil _

theorem recovers_classes {records : List ClassRecord} (h : ∀ c ∈ records, c.Coherent)
    (s : Snapshot) :
    Recovers (Decode.classes records.length s) (Write.elements ClassRecord.written records)
      (records.foldl Snapshot.insert s) := by
  induction records generalizing s with
  | nil => exact recovers_nil s
  | cons c rest ih =>
      exact (recovers_classRecord (h c List.mem_cons_self)).bind (.ite (recovers_fail _ _ _)
        (ih (fun other hother => h other (List.mem_cons_of_mem _ hother)) _))

/-- What is written of a snapshot is not read as another one, nor in part. -/
theorem recovers_content {s : Snapshot} (h : s.Coherent) : Recovers content s.encode s := by
  have hclasses := recovers_classes (fun _ => h.of_mem_values) { mode := s.mode }
  rw [Snapshot.foldl_insert_values h.name, ← Write.sequence_single (Write.elements _ _)] at hclasses
  refine (recovers_of_restores (restores_exactly Snapshot.magic)).bind ?_
  refine (recovers_of_restores ((Read.restores_byte Snapshot.version).mapFault _)).bind ?_
  rw [if_neg (by decide)]
  exact (recovers_of_restores (restores_mode s.mode)).bind (.counted hclasses)

end Decode

namespace Snapshot

/-- Bytes that are not read as a snapshot if some of them are missing at the end. -/
def RejectsPrefixes (bytes : List UInt8) : Prop :=
  ∀ front, front <+: bytes → front ≠ bytes → ∃ fault, decode front = .error fault

theorem rejectsPrefixes_of {bytes : List UInt8}
    (h : ∀ front more s, front ++ more = bytes → decode front = .ok s → more = []) :
    RejectsPrefixes bytes := by
  rintro front ⟨more, hmore⟩ hne
  cases hread : decode front with
  | error fault => exact ⟨fault, rfl⟩
  | ok s =>
      obtain rfl := h front more s hmore hread
      exact absurd ((List.append_nil front).symm.trans hmore) hne

theorem rejectsPrefixes_of_decode {data : List UInt8} {s : Snapshot} (h : decode data = .ok s) :
    RejectsPrefixes data := by
  refine rejectsPrefixes_of fun front more t hmore hread => ?_
  by_contra hne
  rw [← hmore, decode_append hread hne] at h
  cases h

theorem rejectsPrefixes_of_encode {s : Snapshot} (hs : s.Coherent) {bytes : List UInt8}
    (hbytes : s.encode = .ok bytes) : RejectsPrefixes bytes := by
  refine rejectsPrefixes_of fun front more t hmore hread => ?_
  obtain ⟨pos, hcontent⟩ := decode_eq_ok.1 hread
  have hextended : Decode.content ⟨0, bytes ++ []⟩ = (.ok t, ⟨pos, more⟩) := by
    rw [List.append_nil, ← hmore]
    exact Decode.stable_content hcontent more
  exact (Decode.recovers_content hs hbytes hextended).2

/-- Bytes that are a snapshot are one neither without their end nor with more bytes after it.  What
is written of a snapshot is no snapshot without its end, even if it cannot be read with it. -/
theorem decode_prefix_free :
    (∀ data s, decode data = .ok s → RejectsPrefixes data ∧
      ∀ more, more ≠ [] → decode (data ++ more) = .error (.trailing more.length)) ∧
    (∀ s : Snapshot, s.WellFormed → ∃ bytes, s.encode = .ok bytes ∧ RejectsPrefixes bytes) ∧
    ∀ s : Snapshot, s.Coherent → ∀ bytes, s.encode = .ok bytes → RejectsPrefixes bytes := by
  refine ⟨fun data s h => ⟨rejectsPrefixes_of_decode h, fun more => decode_append h⟩, fun s hs => ?_,
    fun s hs bytes => rejectsPrefixes_of_encode hs⟩
  obtain ⟨bytes, hbytes, -⟩ := decode_encode_cases hs
  exact ⟨bytes, hbytes, rejectsPrefixes_of_encode hs.coherent hbytes⟩

/-- A class with one line. -/
def writtenLine : List UInt8 :=
  [67, 86, 83, 78, 1, 5, 1, 1, 65, 0, 0, 4, 0, 0, 1, 4, 103, 40, 41, 86, 1, 2, 0, 3, 200, 1, 0, 0,
   0, 0]

theorem decode_prefix_free_ofLines :
    decode writtenLine = .ok (ofLines [(2, leaving)]) ∧ RejectsPrefixes writtenLine ∧
    decode (writtenLine ++ [0]) = .error (.trailing 1) ∧
    (∃ bytes, eightMethods.encode = .ok bytes ∧ RejectsPrefixes bytes) ∧
    decode writtenLines = .error (.slot 9 4) ∧ RejectsPrefixes writtenLines := by
  obtain ⟨hread, hwellFormed, hcoherent⟩ := decode_prefix_free
  have hline : decode writtenLine = .ok (ofLines [(2, leaving)]) := rfl
  have hlines : (ofLines [(2, leaving), (5, choosing)]).encode = .ok writtenLines := rfl
  obtain ⟨hfront, hmore⟩ := hread _ _ hline
  exact ⟨hline, hfront, hmore [0] (by decide), hwellFormed _ wellFormed_eightMethods, rfl,
    hcoherent _ (coherent_ofLines rfl) _ hlines⟩

end Snapshot

end BytecodeCoverage
