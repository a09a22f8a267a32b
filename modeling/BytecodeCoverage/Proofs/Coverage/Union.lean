import BytecodeCoverage.Proofs.Coverage.MergeLaws

/-!
# What a merge covers

The counters of a merge are sums that stop at the greatest word, so a sum is zero only if both
its parts are.  A line or an outcome of a branch is therefore covered by a merge if one of the
sides covers it, and by nothing else.  Outcomes have no names: they are paired by their places on
the line, which is why lines that are on both sides must have one layout.

A side that only names a class is dropped as a whole; it has no lines that could be lost.

**Main definitions.**
* `CoveragePoint`, `LineRecord.counter?`: what is counted on a line, and its counters.
* `Snapshot.Covers`: a point of a line that has been hit.
* `Snapshot.LinesAgree`: snapshots whose common lines have one layout.

**Results.**
* `LineRecord.counter?_merge`: the counters of two records are added point by point.
* `Snapshot.line?_merge`: the lines of a merge.
* `Snapshot.merge_covers_union`: what a merge covers, and the status of its lines.
-/

namespace BytecodeCoverage

theorem satAdd_eq_zero_iff {a b : UInt32} : satAdd a b = 0 ↔ a = 0 ∧ b = 0 := by
  simp only [← UInt32.toNat_inj, toNat_satAdd, UInt32.toNat_zero, maxWord]
  omega

theorem isSome_getElem?_congr {α : Type} {xs ys : List α} (h : xs.length = ys.length) (i : Nat) :
    xs[i]?.isSome = ys[i]?.isSome := by
  by_cases hi : i < ys.length
  · simp [h, hi]
  · simp [h, hi]

theorem SwitchRecord.addHits_eq_zipLongest {as bs : List UInt32} (h : as.length = bs.length) :
    addHits as bs = zipLongest satAdd as bs := by
  induction as generalizing bs with
  | nil =>
      obtain rfl := List.length_eq_zero_iff.1 h.symm
      rfl
  | cons a as ih =>
      cases bs with
      | nil => cases h
      | cons b bs => rw [addHits, zipLongest, ih (Nat.succ.inj h)]

theorem SwitchRecord.Agrees.symm {a b : SwitchRecord} (h : a.Agrees b) : b.Agrees a :=
  ⟨h.keys.symm, h.keySlots.symm, h.defaultSlot.symm, h.right, h.left⟩

theorem LineRecord.Agrees.symm {a b : LineRecord} (h : a.Agrees b) : b.Agrees a :=
  ⟨h.slot.symm, h.jumps.symm, (h.switches.imp fun _ _ hswitch => hswitch.symm).flip⟩

/-! ## Points of a line -/

/-- What is counted on a line: the line, or an outcome of the branch at a place. -/
inductive CoveragePoint
  | line
  | taken (jump : Nat)
  | notTaken (jump : Nat)
  | key (switch place : Nat)
  | otherwise (switch : Nat)
  deriving DecidableEq

namespace LineRecord

/-- The counter of a point. -/
def counter? (line : LineRecord) : CoveragePoint → Option UInt32
  | .line => some line.hits
  | .taken i => line.jumps[i]?.map JumpRecord.takenHits
  | .notTaken i => line.jumps[i]?.map JumpRecord.notTakenHits
  | .key i place => line.switches[i]?.bind fun switch => switch.keyHits[place]?
  | .otherwise i =>
      line.switches[i]?.bind fun switch => switch.defaultSlot.map fun _ => switch.defaultHits

/-- The point is on the line and has been hit. -/
def Covers (line : LineRecord) (point : CoveragePoint) : Prop :=
  ∃ n ∈ line.counter? point, n ≠ 0

theorem mem_outcomes_iff {line : LineRecord} {n : UInt32} :
    n ∈ line.outcomes ↔ ∃ point ≠ .line, line.counter? point = some n := by
  constructor
  · intro h
    rcases List.mem_append.1 h with hjumps | hswitches
    · obtain ⟨jump, hjump, hn⟩ := List.mem_flatMap.1 hjumps
      obtain ⟨i, hi⟩ := List.mem_iff_getElem?.1 hjump
      rcases List.mem_pair.1 hn with rfl | rfl
      · exact ⟨.taken i, nofun, by rw [counter?, hi]; rfl⟩
      · exact ⟨.notTaken i, nofun, by rw [counter?, hi]; rfl⟩
    · obtain ⟨switch, hswitch, hn⟩ := List.mem_flatMap.1 hswitches
      obtain ⟨i, hi⟩ := List.mem_iff_getElem?.1 hswitch
      rcases List.mem_append.1 hn with hkey | hdefault
      · obtain ⟨place, hplace⟩ := List.mem_iff_getElem?.1 hkey
        exact ⟨.key i place, nofun, by rw [counter?, hi]; exact hplace⟩
      · exact ⟨.otherwise i, nofun, by rw [counter?, hi]; exact Option.mem_toList.1 hdefault⟩
  · rintro ⟨point, hne, hpoint⟩
    rw [outcomes, List.mem_append, List.mem_flatMap, List.mem_flatMap]
    cases point with
    | line => exact absurd rfl hne
    | taken i | notTaken i =>
        obtain ⟨jump, hi, rfl⟩ := Option.map_eq_some_iff.1 hpoint
        exact .inl ⟨jump, List.mem_of_getElem? hi, by simp [JumpRecord.outcomes]⟩
    | key i place =>
        obtain ⟨switch, hi, hplace⟩ := Option.bind_eq_some_iff.1 hpoint
        exact .inr ⟨switch, List.mem_of_getElem? hi,
          List.mem_append_left _ (List.mem_of_getElem? hplace)⟩
    | otherwise i =>
        obtain ⟨switch, hi, hdefault⟩ := Option.bind_eq_some_iff.1 hpoint
        exact .inr ⟨switch, List.mem_of_getElem? hi,
          List.mem_append_right _ (Option.mem_toList.2 hdefault)⟩

variable {a b : LineRecord}

theorem counter?_merge (h : a.Agrees b) (point : CoveragePoint) :
    (a.merge b).counter? point = joinOption satAdd (a.counter? point) (b.counter? point) := by
  cases point with
  | line => rfl
  | taken i | notTaken i =>
      simp only [counter?, merge, getElem?_zipLongest]
      cases a.jumps[i]? <;> cases b.jumps[i]? <;> rfl
  | key i place =>
      simp only [counter?, merge, getElem?_zipLongest]
      cases ha : a.switches[i]? with
      | none => rfl
      | some switch =>
          cases hb : b.switches[i]? with
          | none => cases hkey : switch.keyHits[place]? <;> simp [joinOption, hkey]
          | some switch' =>
              have hlength := (h.switch ha hb).length_eq
              simp only [joinOption, Option.bind_some, SwitchRecord.accumulate,
                SwitchRecord.addHits_eq_zipLongest hlength, getElem?_zipLongest]
  | otherwise i =>
      simp only [counter?, merge, getElem?_zipLongest]
      cases ha : a.switches[i]? with
      | none => rfl
      | some switch =>
          cases hb : b.switches[i]? with
          | none => cases hslot : switch.defaultSlot <;> simp [joinOption, hslot]
          | some switch' =>
              have hdefault := (h.switch ha hb).defaultSlot
              cases hslot : switch.defaultSlot <;>
                simp [joinOption, SwitchRecord.accumulate, ← hdefault, hslot]

/-- Lines of one layout have the same points. -/
theorem isSome_counter? (h : a.Agrees b) (point : CoveragePoint) :
    (a.counter? point).isSome = (b.counter? point).isSome := by
  have hjumps : a.jumps.length = b.jumps.length := by
    simpa using congrArg List.length h.jumps
  have hswitches := h.switches.length_eq
  cases point with
  | line => rfl
  | taken i | notTaken i => simp [counter?, isSome_getElem?_congr hjumps]
  | key i place | otherwise i =>
      by_cases hi : i < a.switches.length
      · have hi' : i < b.switches.length := hswitches ▸ hi
        have hagrees : a.switches[i].Agrees b.switches[i] := h.switches.get hi hi'
        simp [counter?, hi, hi', isSome_getElem?_congr hagrees.length_eq, hagrees.defaultSlot]
      · have hi' : ¬i < b.switches.length := hswitches ▸ hi
        simp [counter?, hi, hi']

theorem covers_merge (h : a.Agrees b) (point : CoveragePoint) :
    (a.merge b).Covers point ↔ a.Covers point ∨ b.Covers point := by
  rw [Covers, counter?_merge h, Covers, Covers]
  cases a.counter? point <;> cases b.counter? point <;>
    simp only [joinOption, Option.mem_def, Option.some.injEq, exists_eq_left', reduceCtorEq,
      false_and, exists_false, or_false, false_or, ne_eq, satAdd_eq_zero_iff, not_and_or]

end LineRecord

/-! ## Status -/

theorem Status.rank_ofCounts_le {hits hits' : UInt32} {outcomes outcomes' : List UInt32}
    (hhits : hits ≠ 0 → hits' ≠ 0)
    (houtcomes : (∀ n ∈ outcomes, n ≠ 0) → ∀ n ∈ outcomes', n ≠ 0) :
    (ofCounts hits outcomes).rank ≤ (ofCounts hits' outcomes').rank := by
  simp only [ofCounts, List.all_eq_true, bne_iff_ne]
  by_cases hzero : hits = 0
  · simp [hzero, rank]
  · rw [if_neg hzero, if_neg (hhits hzero)]
    by_cases hall : ∀ n ∈ outcomes, n ≠ 0
    · rw [if_pos hall, if_pos (houtcomes hall)]
    · rw [if_neg hall]
      split <;> simp [rank]

theorem LineRecord.rank_status_le_merge {a b : LineRecord} (h : a.Agrees b) :
    a.status.rank ≤ (a.merge b).status.rank := by
  refine Status.rank_ofCounts_le (fun hhits hzero => hhits (satAdd_eq_zero_iff.1 hzero).1) ?_
  intro hall n hn
  obtain ⟨point, hne, hpoint⟩ := mem_outcomes_iff.1 hn
  -- What is an outcome of the merge is one of the first record already.
  have hsome : (a.counter? point).isSome := by
    rw [counter?_merge h] at hpoint
    have hsame := isSome_counter? h point
    cases ha : a.counter? point with
    | some m => rfl
    | none =>
        rw [ha, Option.isSome_none, Eq.comm, Option.isSome_eq_false_iff, Option.isNone_iff_eq_none]
          at hsame
        simp [ha, hsame, joinOption] at hpoint
  obtain ⟨m, hm⟩ := Option.isSome_iff_exists.1 hsome
  have hm0 : m ≠ 0 := hall m (mem_outcomes_iff.2 ⟨point, hne, hm⟩)
  obtain ⟨n', hn', hne0⟩ := (covers_merge h point).2 (.inl ⟨m, hm, hm0⟩)
  exact Option.some.inj (hpoint.symm.trans hn') ▸ hne0

/-! ## Classes and snapshots -/

theorem ClassRecord.line?_eq_none {record : ClassRecord} (h : record.contributes = false)
    (number : UInt32) : record.line? number = none := by
  have hempty : record.lines.isEmpty = true := by
    simpa using (Bool.or_eq_false_iff.1 h).2
  exact SortedMap.isEmpty_iff.1 hempty number

theorem ClassRecord.line?_merge (a b : ClassRecord) (number : UInt32) :
    (a.merge b).line? number = joinOption LineRecord.merge (a.line? number) (b.line? number) := by
  cases ha : a.contributes <;> cases hb : b.contributes
  case false.true => rw [merge_right ha hb, line?_eq_none ha, joinOption]
  case true.false =>
    rw [merge_left ha hb, line?_eq_none hb]
    cases a.line? number <;> rfl
  all_goals
    rw [merge_parts (ha.trans hb.symm), line?_mergeParts]

namespace Snapshot

/-- The record of a line of a class. -/
def line? (s : Snapshot) (name : String) (number : UInt32) : Option LineRecord :=
  (s.class? name).bind fun record => record.line? number

/-- The status of a line of a class. -/
def status? (s : Snapshot) (name : String) (number : UInt32) : Option Status :=
  (s.class? name).bind fun record => record.status? number

/-- The point is on the line of the class and has been hit. -/
def Covers (s : Snapshot) (name : String) (number : UInt32) (point : CoveragePoint) : Prop :=
  ∃ line ∈ s.line? name number, line.Covers point

/-- Lines that both snapshots have agree in their slots and keys. -/
def LinesAgree (a b : Snapshot) : Prop :=
  ∀ name number, ∀ line ∈ a.line? name number, ∀ line' ∈ b.line? name number, line.Agrees line'

variable {a b : Snapshot}

theorem linesAgree_of_class (h : ∀ name, ∀ record ∈ a.class? name, ∀ record' ∈ b.class? name,
    record.Agrees record') : a.LinesAgree b := by
  intro name number line hline line' hline'
  obtain ⟨record, hrecord, hline⟩ := Option.bind_eq_some_iff.1 hline
  obtain ⟨record', hrecord', hline'⟩ := Option.bind_eq_some_iff.1 hline'
  exact (h name record hrecord record' hrecord').line hline hline'

theorem Compatible.linesAgree (h : a.Compatible b) : a.LinesAgree b :=
  linesAgree_of_class fun _ _ hrecord _ hrecord' => h.class hrecord hrecord'

theorem line?_merge (a b : Snapshot) (name : String) (number : UInt32) :
    (a.merge b).line? name number =
      joinOption LineRecord.merge (a.line? name number) (b.line? name number) := by
  rw [line?, class?_merge, line?, line?]
  cases a.class? name with
  | none => rfl
  | some record =>
      cases b.class? name with
      | none => cases h : record.line? number <;> simp [joinOption, h]
      | some record' => exact record.line?_merge record' number

theorem status?_eq (s : Snapshot) (name : String) (number : UInt32) :
    s.status? name number = (s.line? name number).map LineRecord.status := by
  rw [status?, line?, Option.map_bind]
  rfl

theorem covers_merge (h : a.LinesAgree b) (name : String) (number : UInt32)
    (point : CoveragePoint) :
    (a.merge b).Covers name number point ↔
      a.Covers name number point ∨ b.Covers name number point := by
  rw [Covers, line?_merge, Covers, Covers]
  cases ha : a.line? name number with
  | none => simp [joinOption]
  | some line =>
      cases hb : b.line? name number with
      | none => simp [joinOption]
      | some line' => simp [joinOption, LineRecord.covers_merge (h name number line ha line' hb)]

theorem rank_status_le_merge (h : a.LinesAgree b) {name : String} {number : UInt32}
    {line : LineRecord} (hline : line ∈ a.line? name number ∨ line ∈ b.line? name number) :
    ∃ status ∈ (a.merge b).status? name number, line.status.rank ≤ status.rank := by
  rw [status?_eq, line?_merge]
  rcases hline with ha | hb
  · rw [Option.mem_def.1 ha]
    cases hb : b.line? name number with
    | none => exact ⟨_, rfl, Nat.le_refl _⟩
    | some line' =>
        exact ⟨_, rfl, LineRecord.rank_status_le_merge (h name number line ha line' hb)⟩
  · rw [Option.mem_def.1 hb]
    cases ha : a.line? name number with
    | none => exact ⟨_, rfl, Nat.le_refl _⟩
    | some line' =>
        have hagrees : line'.Agrees line := h name number line' ha line hb
        have hle : line.status.rank ≤ (line.merge line').status.rank :=
          LineRecord.rank_status_le_merge hagrees.symm
        exact ⟨_, rfl, LineRecord.merge_comm hagrees ▸ hle⟩

/-- A merge has the lines of both sides, covers what one of them covers, and takes the status of
no line back. -/
theorem merge_covers_union (h : a.LinesAgree b) (name : String) (number : UInt32) :
    ((∃ line, (a.merge b).line? name number = some line) ↔
        (∃ line, a.line? name number = some line) ∨ ∃ line, b.line? name number = some line) ∧
      (∀ point, (a.merge b).Covers name number point ↔
        a.Covers name number point ∨ b.Covers name number point) ∧
      ∀ s ∈ [a, b], ∀ status ∈ s.status? name number,
        ∃ status' ∈ (a.merge b).status? name number, status.rank ≤ status'.rank := by
  refine ⟨?_, covers_merge h name number, ?_⟩
  · rw [line?_merge]
    cases a.line? name number <;> cases b.line? name number <;> simp [joinOption]
  · intro s hs status hstatus
    rw [status?_eq] at hstatus
    obtain ⟨line, hline, rfl⟩ := Option.map_eq_some_iff.1 hstatus
    rcases List.mem_pair.1 hs with rfl | rfl
    · exact rank_status_le_merge h (.inl hline)
    · exact rank_status_le_merge h (.inr hline)

/-- A report whose counters stand at the greatest word. -/
def reportOfManyRuns : Snapshot where
  classes := .ofList
    [("A",
      { name := "A"
        lines := .ofList [(4, branchingLine "f()V" 0xffffffff)]
        slotCount := 4
        hits := [0xffffffff, 0xffffffff, 0, 0xffffffff]
        fullyAnalyzed := true })]

theorem linesAgree_manyRuns_twoLines : reportOfManyRuns.LinesAgree reportOfTwoLines := by
  refine linesAgree_of_class fun name record hrecord record' hrecord' => ?_
  obtain ⟨⟩ := List.mem_singleton.1 (SortedMap.mem_entries.2 hrecord)
  obtain ⟨⟩ := List.mem_singleton.1 (SortedMap.mem_entries.2 hrecord')
  refine ⟨fun l hl l' hl' hnumber => ?_, nofun⟩
  obtain rfl := List.mem_singleton.1 hl
  rcases List.mem_pair.1 hl' with rfl | rfl
  · exact agrees_branchingLine ..
  · cases hnumber

/-- A sum that stops at the greatest word is still greater than zero. -/
theorem merge_covers_union_manyRuns :
    reportOfManyRuns.LinesAgree reportOfTwoLines ∧
      (∃ line, (reportOfManyRuns.merge reportOfTwoLines).line? "A" 5 = some line) ∧
      (reportOfManyRuns.merge reportOfTwoLines).Covers "A" 4 (.taken 0) ∧
      ∃ status ∈ (reportOfManyRuns.merge reportOfTwoLines).status? "A" 4,
        Status.partly.rank ≤ status.rank := by
  obtain ⟨-, hcovers, hstatus⟩ := merge_covers_union linesAgree_manyRuns_twoLines "A" 4
  have hline : reportOfManyRuns.line? "A" 4 = some (branchingLine "f()V" 0xffffffff) := rfl
  refine ⟨linesAgree_manyRuns_twoLines, ?_, ?_, ?_⟩
  · exact (merge_covers_union linesAgree_manyRuns_twoLines "A" 5).1.2 (.inr ⟨_, rfl⟩)
  · exact (hcovers (.taken 0)).2 (.inl ⟨_, hline, 0xffffffff, rfl, by decide⟩)
  · exact hstatus reportOfManyRuns List.mem_cons_self .partly (by decide)

end Snapshot

end BytecodeCoverage
