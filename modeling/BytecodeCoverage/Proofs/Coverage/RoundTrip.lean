import BytecodeCoverage.Proofs.Coverage.Restoring

/-!
# Snapshots that are written and read again

A well-formed snapshot can always be written.  Whether it can be read again depends on one thing
only: a class with many methods and little to follow the last of its lines is not read.

**Results.**
* `Snapshot.decode_encode_iff`: what is written is read exactly if the methods are in reach.
* `Snapshot.decode_encode_of_few`: a few methods are always in reach.
-/

namespace BytecodeCoverage

namespace Decode

theorem restores_exactly (expected : List UInt8) :
    (exactly expected).Restores (.ok expected) () := by
  refine ⟨expected, rfl, fun pos rest => ?_⟩
  induction expected generalizing pos with
  | nil => rfl
  | cons b expected ih =>
      have hbyte : plain Read.byte ⟨pos, b :: expected ++ rest⟩ =
          (.ok b, ⟨pos + 1, expected ++ rest⟩) := rfl
      refine (Read.bind_ok hbyte).trans ?_
      rw [if_pos rfl, ih, List.length_cons, Nat.add_assoc, Nat.add_comm 1]

theorem restores_mode (mode : Mode) : Decode.mode.Restores (.ok [mode.bits]) mode := by
  refine ((Read.restores_byte mode.bits).mapFault _).map fun r => ?_
  obtain ⟨branches, instructions, counts⟩ := mode
  cases branches <;> cases instructions <;> cases counts <;> rfl

end Decode

namespace Snapshot

theorem WellFormed.of_mem_values {s : Snapshot} (h : s.WellFormed) {c : ClassRecord}
    (hc : c ∈ s.classes.values) : c.WellFormed := by
  obtain ⟨e, he, rfl⟩ := List.mem_map.1 hc
  exact h.record e he

/-- Inserting the classes of a snapshot one after the other gives the snapshot. -/
theorem foldl_insert_values {s : Snapshot} (h : ∀ e ∈ s.classes.entries, e.2.name = e.1) :
    s.classes.values.foldl Snapshot.insert { mode := s.mode } = s := by
  have hfold : ∀ (entries : List (String × ClassRecord)) (t : Snapshot),
      (∀ e ∈ entries, e.2.name = e.1) →
      (entries.map Prod.snd).foldl Snapshot.insert t =
        { t with classes := t.classes.insertAll entries } := by
    intro entries
    induction entries with
    | nil => exact fun _ _ => rfl
    | cons e rest ih =>
        intro t hnames
        rw [List.map_cons, List.foldl_cons, ih _ fun other hother =>
          hnames other (List.mem_cons_of_mem _ hother), Snapshot.insert,
          hnames e List.mem_cons_self]
        rfl
  rw [SortedMap.values, hfold _ _ h]
  exact congrArg (Snapshot.mk s.mode) s.classes.ofList_entries

/-- A well-formed snapshot is written; reading what is written gives the snapshot if the methods are
in reach, and otherwise finds an index that is too great. -/
theorem decode_encode_cases {s : Snapshot} (h : s.WellFormed) :
    ∃ bytes, s.encode = .ok bytes ∧
      ((s.InReach ∧ decode bytes = .ok s) ∨
        (¬ s.InReach ∧ ∃ n left offset, decode bytes = .error (.bytes (.count n left offset)))) := by
  have hnodup : (s.classes.values.map ClassRecord.name).Nodup := by
    have hkeys : s.classes.values.map ClassRecord.name = s.classes.entries.map Prod.fst := by
      rw [SortedMap.values, List.map_map]
      exact List.map_congr_left h.name
    rw [hkeys]
    exact s.classes.nodup_keys
  have hlength : s.classes.values.length ≤ maxWord := by
    rw [SortedMap.values, List.length_map]
    exact h.size
  obtain ⟨others, hothers, hclasses⟩ :=
    Decode.restoresIf_classes (fun _ => h.of_mem_values) hnodup { mode := s.mode } fun _ _ => rfl
  rw [foldl_insert_values h.name] at hclasses
  have hsize : s.classes.values.length ≤ others.length := by
    refine Write.length_le_size_elements (fun c hc => ?_) hothers
    obtain ⟨_, hclass, -⟩ := Decode.restoresIf_classRecord (h.of_mem_values hc)
    exact Write.size_sequence_pos hclass (Read.size_string_pos (h.of_mem_values hc).name)
  obtain ⟨front, hfront, hcount⟩ := Read.restores_varint hlength
  have hcounted : Write.counted ClassRecord.written s.classes.values = .ok (front ++ others) := by
    refine Write.sequence_cons ?_ ((Write.sequence_single _).trans hothers)
    rw [Write.count, if_pos hlength, hfront]
  refine ⟨magic ++ ([version] ++ ([s.mode.bits] ++ (front ++ others))),
    Write.sequence_cons rfl (Write.sequence_cons rfl (Write.sequence_cons rfl
      ((Write.sequence_single _).trans hcounted))), ?_⟩
  obtain ⟨_, ⟨⟩, hmagic⟩ := Decode.restores_exactly magic
  obtain ⟨_, ⟨⟩, hmode⟩ := Decode.restores_mode s.mode
  have hversion (pos : Nat) (rest : List UInt8) : Decode.plain Read.byte ⟨pos, [version] ++ rest⟩ =
      (.ok version, ⟨pos + 1, rest⟩) := rfl
  -- What is read up to the classes.
  have hfirst (finish : Snapshot → Decode.Get Snapshot) (pos : Nat) :
      (Decode.plain Read.count >>= fun n => Decode.classes n { mode := s.mode } >>= finish)
        ⟨pos, front ++ others⟩ =
      (Decode.classes s.classes.values.length { mode := s.mode } >>= finish)
        ⟨pos + front.length, others⟩ := by
    have hread := Read.count_of_varint (hcount pos others)
    rw [if_neg (Nat.not_lt.2 hsize)] at hread
    exact Read.bind_ok (Read.mapFault_ok DecodeFault.bytes hread)
  have hdecode : decode (magic ++ ([version] ++ ([s.mode.bits] ++ (front ++ others)))) =
      ((Decode.classes s.classes.values.length { mode := s.mode } >>= fun s =>
          Read.remaining >>= fun left =>
            if left = 0 then pure s else Read.fail (.trailing left) : Decode.Get Snapshot)
        ⟨magic.length + 1 + 1 + front.length, others⟩).1 := by
    refine congrArg Prod.fst ((Read.bind_ok (hmagic 0 _)).trans ?_)
    refine (Read.bind_ok (hversion _ _)).trans ?_
    rw [if_neg (by decide)]
    refine (Read.bind_ok (hmode _ _)).trans ?_
    rw [Nat.zero_add]
    exact hfirst _ _
  rw [hdecode]
  have hend := hclasses (magic.length + 1 + 1 + front.length) []
  rw [List.append_nil] at hend
  rcases hend with ⟨hreach, hread⟩ | ⟨hfar, n, left, offset, r, hread⟩
  · exact .inl ⟨hreach, (congrArg Prod.fst (Read.bind_ok hread)).trans rfl⟩
  · exact .inr ⟨hfar, n, left, offset, congrArg Prod.fst (Read.bind_error hread)⟩

/-- Classes that list seven methods at most are always read again. -/
theorem decode_encode_of_few {s : Snapshot} (h : s.WellFormed)
    (hfew : ∀ c ∈ s.classes.values, c.methods.length ≤ 7) :
    ∃ bytes, s.encode = .ok bytes ∧ decode bytes = .ok s := by
  obtain ⟨bytes, hbytes, hcases⟩ := decode_encode_cases h
  rcases hcases with ⟨-, hread⟩ | ⟨hfar, -⟩
  · exact ⟨bytes, hbytes, hread⟩
  · exact absurd (Decode.allInReach_classes (fun _ => h.of_mem_values) hfew 0) hfar

/-- What is written of a well-formed snapshot is read again exactly if no index of a method is
greater than the number of bytes after it; otherwise reading stops at such an index. -/
theorem decode_encode_iff {s : Snapshot} (h : s.WellFormed) :
    ∃ bytes, s.encode = .ok bytes ∧ (decode bytes = .ok s ↔ s.InReach) ∧
      (¬ s.InReach → ∃ n left offset, decode bytes = .error (.bytes (.count n left offset))) := by
  obtain ⟨bytes, hbytes, hcases⟩ := decode_encode_cases h
  refine ⟨bytes, hbytes, ?_⟩
  rcases hcases with ⟨hreach, hread⟩ | ⟨hfar, n, left, offset, hread⟩
  · exact ⟨⟨fun _ => hreach, fun _ => hread⟩, fun hfar => absurd hreach hfar⟩
  · refine ⟨⟨fun hok => ?_, fun hreach => absurd hreach hfar⟩, fun _ => ⟨n, left, offset, hread⟩⟩
    rw [hread] at hok
    cases hok

/-! ## A class with eight methods -/

/-- A line that is the only one of its method. -/
def lineOf (k : Nat) : UInt32 × LineRecord :=
  (UInt32.ofNat (k + 1), { method := "m" ++ toString k ++ "()V", slot := k })

def eightMethods : Snapshot where
  classes := .ofList
    [("A",
      { name := "A"
        lines := .ofList ((List.range 8).map lineOf)
        slotCount := 8
        fullyAnalyzed := true })]

theorem wellFormed_eightMethods : eightMethods.WellFormed where
  size := by decide
  name := by decide
  record := by
    intro e he
    obtain rfl := List.mem_singleton.1 he
    refine ⟨by decide, nofun, by decide, by decide, nofun, by decide, fun e he => ?_, nofun⟩
    have hentries : (SortedMap.ofList ((List.range 8).map lineOf)).entries =
        (List.range 8).map lineOf := by
      decide
    obtain ⟨k, hk, rfl⟩ := List.mem_map.1 (hentries ▸ he)
    have hmethods : ∀ k ∈ List.range 8, Utf8.Short (lineOf k).2.method := by decide
    have hslots : ∀ slot ∈ (lineOf k).2.slots, slot < 8 := by
      simpa [lineOf, LineRecord.slots] using hk
    exact ⟨hmethods k hk, hslots, nofun, Nat.zero_le _, Nat.zero_le _, nofun⟩

theorem decode_encode_eightMethods :
    ∃ bytes, eightMethods.encode = .ok bytes ∧ decode bytes ≠ .ok eightMethods := by
  obtain ⟨bytes, hbytes, hiff, -⟩ := decode_encode_iff wellFormed_eightMethods
  exact ⟨bytes, hbytes, fun hread => absurd (hiff.1 hread) (by decide)⟩

end Snapshot

end BytecodeCoverage
