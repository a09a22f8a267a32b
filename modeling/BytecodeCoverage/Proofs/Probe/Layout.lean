import BytecodeCoverage.Proofs.Probe.Occurrence

/-!
# The layout of a record

Every slot that is handed out stands for one occurrence.  The list of what the slots stand for
grows with each entry that gets slots and is never changed otherwise, so whatever has been said of
a slot remains true.

**Main definitions.**
* `ClassRecord.Layout`: the records and the list agree.

**Results.**
* `ClassRecord.Layout.lineOrInsert`, `ClassRecord.Layout.addBranch`: lines and branches get slots.
-/

namespace BytecodeCoverage

namespace ClassRecord

/-- The record and the list of what its slots stand for agree, after the given entries have got
their slots. -/
structure Layout (record : ClassRecord) (entries : List (Nat × Kept))
    (meanings : List Occurrence) : Prop where
  length : meanings.length = record.slotCount
  nodup : meanings.Nodup
  line : ∀ number line, record.line? number = some line →
    meanings[line.slot]? = some (.passes number)
  jumps : ∀ number line, record.line? number = some line →
    List.Forall₂ (JumpRecord.Means meanings) line.jumps (sitesOn Kept.jump? number entries)
  switches : ∀ number line, record.line? number = some line →
    List.Forall₂ (SwitchRecord.Means meanings) line.switches
      (sitesOn Kept.switch? number entries)
  /-- Nothing else has a slot. -/
  listed : ∀ o ∈ meanings, (∃ number, o = .passes number ∧ (record.line? number).isSome) ∨
    ∃ e ∈ entries, o ∈ e.2.outcomes e.1
  known : ∀ e ∈ entries, (record.line? e.2.number).isSome

namespace Layout

variable {record : ClassRecord} {entries : List (Nat × Kept)} {meanings : List Occurrence}
  {number : UInt32} {line : LineRecord}

/-- There are no sites on a line without a record. -/
theorem sitesOn_eq_nil {α : Type} (select : Kept → Option α)
    (h : record.Layout entries meanings) (hline : record.line? number = none) :
    sitesOn select number entries = [] := by
  have hnone : (entries.filter fun e => e.2.number = number) = [] := by
    rw [List.filter_eq_nil_iff]
    intro e he hnumber
    have hknown := h.known e he
    rw [of_decide_eq_true hnumber, hline] at hknown
    cases hknown
  rw [sitesOn, hnone]
  rfl

/-- A slot stands for an occurrence, and only this slot does. -/
theorem slot_inj (h : record.Layout entries meanings) {i j : Nat} {o : Occurrence}
    (hi : meanings[i]? = some o) (hj : meanings[j]? = some o) : i = j := by
  obtain ⟨hlt, -⟩ := List.getElem?_eq_some_iff.1 hi
  exact (List.getElem?_inj hlt h.nodup).1 (hi.trans hj.symm)

end Layout

/-! ## Handing out slots -/

theorem line?_insertLine (record : ClassRecord) (number other : UInt32) (line : LineRecord) :
    (record.insertLine number line).line? other =
      if other = number then some line else record.line? other := by
  by_cases h : other = number
  · simp [line?, insertLine, h, SortedMap.get?_insert_self]
  · simp [line?, insertLine, h, SortedMap.get?_insert_of_ne]

theorem line?_modifyLine (record : ClassRecord) (number other : UInt32)
    (f : LineRecord → LineRecord) :
    (record.modifyLine number f).line? other =
      if other = number then (record.line? number).map f else record.line? other := by
  unfold modifyLine
  cases hline : record.line? number with
  | some line => rw [line?_insertLine, Option.map_some]
  | none =>
      by_cases h : other = number
      · simp [h, hline]
      · simp [h]

theorem slotCount_modifyLine (record : ClassRecord) (number : UInt32)
    (f : LineRecord → LineRecord) : (record.modifyLine number f).slotCount = record.slotCount := by
  unfold modifyLine
  split <;> rfl

namespace Layout

variable {record : ClassRecord} {entries : List (Nat × Kept)} {meanings : List Occurrence}
  {line : LineRecord} {method : Nat}

/-- A line gets its record if it has none. -/
theorem lineOrInsert (h : record.Layout entries meanings) (number : UInt32) (signature : String) :
    ∃ more, (record.lineOrInsert number signature).2.Layout entries (meanings ++ more) ∧
      (record.lineOrInsert number signature).2.line? number =
        some (record.lineOrInsert number signature).1 := by
  unfold ClassRecord.lineOrInsert
  cases hline : record.line? number with
  | some line => exact ⟨[], (List.append_nil meanings).symm ▸ h, hline⟩
  | none =>
      refine ⟨[.passes number], ?_, by rw [line?_insertLine, if_pos rfl]⟩
      have hlookup : ∀ other line, (({ record with slotCount := record.slotCount + 1 } :
          ClassRecord).insertLine number { method := signature, slot := record.slotCount }).line?
            other = some line →
          (other = number ∧ line = { method := signature, slot := record.slotCount }) ∨
            other ≠ number ∧ record.line? other = some line := by
        intro other line hother
        rw [line?_insertLine] at hother
        by_cases heq : other = number
        · rw [if_pos heq] at hother
          exact .inl ⟨heq, (Option.some.inj hother).symm⟩
        · rw [if_neg heq] at hother
          exact .inr ⟨heq, hother⟩
      have hkept : ∀ other, (record.line? other).isSome →
          ((({ record with slotCount := record.slotCount + 1 } : ClassRecord).insertLine number
            { method := signature, slot := record.slotCount }).line? other).isSome := by
        intro other hother
        rw [line?_insertLine]
        by_cases heq : other = number
        · rw [if_pos heq]
          rfl
        · rw [if_neg heq]
          exact hother
      constructor
      · simp [ClassRecord.allocateSlot, ClassRecord.insertLine, h.length]
      · refine List.nodup_append.2 ⟨h.nodup, List.nodup_singleton _, ?_⟩
        intro o ho other hother
        obtain rfl := List.mem_singleton.1 hother
        rintro rfl
        rcases h.listed _ ho with ⟨_, heq, hsome⟩ | ⟨e, -, he⟩
        · cases heq
          rw [hline] at hsome
          cases hsome
        · obtain ⟨_, _, -, heq⟩ := Kept.eq_performs_of_mem he
          cases heq
      · intro other line hother
        rcases hlookup other line hother with ⟨rfl, rfl⟩ | ⟨-, hother⟩
        · simp [← h.length]
        · exact getElem?_append_of_some (h.line other line hother) _
      · intro other line hother
        rcases hlookup other line hother with ⟨rfl, rfl⟩ | ⟨-, hother⟩
        · rw [h.sitesOn_eq_nil _ hline]
          exact .nil
        · exact (h.jumps other line hother).imp fun _ _ hmeans => hmeans.append _
      · intro other line hother
        rcases hlookup other line hother with ⟨rfl, rfl⟩ | ⟨-, hother⟩
        · rw [h.sitesOn_eq_nil _ hline]
          exact .nil
        · exact (h.switches other line hother).imp fun _ _ hmeans => hmeans.append _
      · intro o ho
        rcases List.mem_append.1 ho with ho | ho
        · rcases h.listed o ho with ⟨other, heq, hsome⟩ | hbranch
          · exact .inl ⟨other, heq, hkept other hsome⟩
          · exact .inr hbranch
        · exact .inl ⟨number, List.mem_singleton.1 ho, by rw [line?_insertLine, if_pos rfl]; rfl⟩
      · exact fun e he => hkept _ (h.known e he)

/-- A branch gets the slots of its outcomes. -/
theorem addBranch (h : record.Layout entries meanings) (kept : Kept)
    (hline : record.line? kept.number = some line)
    (hfresh : ∀ index, kept.branch? = some index → (method, index) ∉ branchesOf entries)
    (f : LineRecord → LineRecord) (hslot : (f line).slot = line.slot)
    (hjumps : List.Forall₂ (JumpRecord.Means (meanings ++ kept.outcomes method)) (f line).jumps
      (sitesOn Kept.jump? kept.number (entries ++ [(method, kept)])))
    (hswitches : List.Forall₂ (SwitchRecord.Means (meanings ++ kept.outcomes method))
      (f line).switches (sitesOn Kept.switch? kept.number (entries ++ [(method, kept)]))) :
    (({ record with slotCount := record.slotCount + (kept.outcomes method).length } :
      ClassRecord).modifyLine kept.number f).Layout (entries ++ [(method, kept)])
        (meanings ++ kept.outcomes method) := by
  have hlookup : ∀ number, (({ record with
      slotCount := record.slotCount + (kept.outcomes method).length } :
        ClassRecord).modifyLine kept.number f).line? number =
      if number = kept.number then some (f line) else record.line? number := by
    intro number
    rw [line?_modifyLine]
    simp only [ClassRecord.line?] at hline ⊢
    rw [hline, Option.map_some]
  constructor
  · rw [slotCount_modifyLine, List.length_append, h.length]
  · refine List.nodup_append.2 ⟨h.nodup, kept.nodup_outcomes method, ?_⟩
    rintro o ho _ hother rfl
    obtain ⟨index, deed, hindex, rfl⟩ := Kept.eq_performs_of_mem hother
    rcases h.listed _ ho with ⟨_, heq, -⟩ | ⟨e, he, hmem⟩
    · cases heq
    · obtain ⟨index', deed', hindex', heq⟩ := Kept.eq_performs_of_mem hmem
      cases heq
      exact hfresh index hindex (List.mem_filterMap.2 ⟨e, he, by rw [hindex', Option.map_some]⟩)
  · intro number line' hline'
    rw [hlookup] at hline'
    by_cases heq : number = kept.number
    · rw [if_pos heq, Option.some.injEq] at hline'
      rw [← hline', hslot, heq]
      exact getElem?_append_of_some (h.line _ _ hline) _
    · rw [if_neg heq] at hline'
      exact getElem?_append_of_some (h.line _ _ hline') _
  · intro number line' hline'
    rw [hlookup] at hline'
    by_cases heq : number = kept.number
    · rw [if_pos heq, Option.some.injEq] at hline'
      rw [← hline', heq]
      exact hjumps
    · rw [if_neg heq] at hline'
      rw [sitesOn_append_of_ne _ heq]
      exact (h.jumps number line' hline').imp fun _ _ hmeans => hmeans.append _
  · intro number line' hline'
    rw [hlookup] at hline'
    by_cases heq : number = kept.number
    · rw [if_pos heq, Option.some.injEq] at hline'
      rw [← hline', heq]
      exact hswitches
    · rw [if_neg heq] at hline'
      rw [sitesOn_append_of_ne _ heq]
      exact (h.switches number line' hline').imp fun _ _ hmeans => hmeans.append _
  · intro o ho
    rcases List.mem_append.1 ho with ho | ho
    · rcases h.listed o ho with ⟨number, heq, hsome⟩ | ⟨e, he, hmem⟩
      · refine .inl ⟨number, heq, ?_⟩
        rw [hlookup]
        split <;> simp [hsome]
      · exact .inr ⟨e, List.mem_append_left _ he, hmem⟩
    · exact .inr ⟨_, List.mem_append_right _ List.mem_cons_self, ho⟩
  · intro e he
    rw [hlookup]
    split
    · rfl
    · rename_i hne
      rcases List.mem_append.1 he with he | he
      · exact h.known e he
      · obtain rfl := List.mem_singleton.1 he
        exact absurd rfl hne

/-- A marker of a line that has a record needs nothing more. -/
theorem addMarker (h : record.Layout entries meanings) {marker : Marker}
    (hline : (record.line? marker.line).isSome) :
    record.Layout (entries ++ [(method, .line marker)]) meanings where
  length := h.length
  nodup := h.nodup
  line := h.line
  jumps number line hnumber := by
    rw [sitesOn_append_of_none _ rfl]
    exact h.jumps number line hnumber
  switches number line hnumber := by
    rw [sitesOn_append_of_none _ rfl]
    exact h.switches number line hnumber
  listed o ho := (h.listed o ho).imp_right fun ⟨e, he, hmem⟩ =>
    ⟨e, List.mem_append_left _ he, hmem⟩
  known e he := by
    rcases List.mem_append.1 he with he | he
    · exact h.known e he
    · obtain rfl := List.mem_singleton.1 he
      exact hline

/-- Numbers of instructions change nothing. -/
theorem addCounts (h : record.Layout entries meanings) (counts : List (UInt32 × Nat)) :
    (record.addCounts counts).Layout entries meanings := by
  induction counts generalizing record with
  | nil => exact h
  | cons count rest ih =>
      refine ih ?_
      obtain ⟨number, n⟩ := count
      dsimp only
      have hlookup : ∀ other line, (record.modifyLine number fun line =>
          { line with instructions := some (line.instructions.getD 0 + n) }).line? other =
            some line →
          ∃ old, record.line? other = some old ∧ line.slot = old.slot ∧ line.jumps = old.jumps ∧
            line.switches = old.switches := by
        intro other line hline
        rw [line?_modifyLine] at hline
        by_cases heq : other = number
        · rw [if_pos heq] at hline
          obtain ⟨old, hold, rfl⟩ := Option.map_eq_some_iff.1 hline
          exact ⟨old, heq ▸ hold, rfl, rfl, rfl⟩
        · rw [if_neg heq] at hline
          exact ⟨line, hline, rfl, rfl, rfl⟩
      have hkept : ∀ other, (record.line? other).isSome → ((record.modifyLine number fun line =>
          { line with instructions := some (line.instructions.getD 0 + n) }).line? other).isSome := by
        intro other hother
        rw [line?_modifyLine]
        split
        · rename_i heq
          rw [Option.isSome_map, ← heq]
          exact hother
        · exact hother
      constructor
      · rw [slotCount_modifyLine, h.length]
      · exact h.nodup
      · intro other line hline
        obtain ⟨old, hold, hslot, -, -⟩ := hlookup other line hline
        exact hslot ▸ h.line other old hold
      · intro other line hline
        obtain ⟨old, hold, -, hjumps, -⟩ := hlookup other line hline
        exact hjumps ▸ h.jumps other old hold
      · intro other line hline
        obtain ⟨old, hold, -, -, hswitches⟩ := hlookup other line hline
        exact hswitches ▸ h.switches other old hold
      · exact fun o ho => (h.listed o ho).imp_left fun ⟨other, heq, hsome⟩ =>
          ⟨other, heq, hkept other hsome⟩
      · exact fun e he => hkept _ (h.known e he)

end Layout

end ClassRecord

end BytecodeCoverage
