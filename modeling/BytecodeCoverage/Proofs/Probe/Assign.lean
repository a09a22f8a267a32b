import BytecodeCoverage.Proofs.Probe.Layout

/-!
# Handing out the slots of a method

The slots that a method is given are those of its lines, whoever was given them first, and those of
the outcomes of its own branches.

**Main definitions.**
* `MethodSlots.Fits`: the slots of a method and what they stand for agree.

**Results.**
* `ClassRecord.Layout.assignKept`: one kept entry gets its slots.
* `ClassRecord.Layout.assign`: a scanned method gets its slots.
* `ClassRecord.extends_assign`: only lines and slots are added to the record.
-/

namespace BytecodeCoverage

namespace MethodSlots

/-- The slots of a method agree with what they stand for, after the given entries of the method
have got theirs. -/
structure Fits (slots : MethodSlots) (method : Nat) (here : List Kept)
    (meanings : List Occurrence) : Prop where
  sound : ∀ site slot, slots.slot? site = some slot →
    meanings[slot]? = some (site.occurrence method)
  line : ∀ kept ∈ here, (slots.slot? (.line kept.number)).isSome
  outcome : ∀ kept ∈ here, ∀ site, site.occurrence method ∈ kept.outcomes method →
    (slots.slot? site).isSome

namespace Fits

variable {slots : MethodSlots} {method : Nat} {here : List Kept} {meanings : List Occurrence}

theorem empty (method : Nat) (meanings : List Occurrence) :
    ({} : MethodSlots).Fits method [] meanings where
  sound site slot h := by cases site <;> cases h
  line := by simp
  outcome := by simp

theorem append (h : slots.Fits method here meanings) (more : List Occurrence) :
    slots.Fits method here (meanings ++ more) where
  sound site slot hslot := getElem?_append_of_some (h.sound site slot hslot) more
  line := h.line
  outcome := h.outcome

/-- The slot of a line is noted, whose slot it is. -/
theorem noteLine (h : slots.Fits method here meanings) {number : UInt32} {slot : Nat}
    (hslot : meanings[slot]? = some (.passes number)) :
    (slots.noteLine number slot).Fits method here meanings ∧
      ((slots.noteLine number slot).slot? (.line number)).isSome := by
  have hlines : ∀ other, (slots.noteLine number slot).lines.get? other =
      if other = number then some ((slots.lines.get? number).getD slot)
      else slots.lines.get? other := by
    intro other
    by_cases heq : other = number
    · simp [MethodSlots.noteLine, SortedMap.update, heq, SortedMap.get?_insert_self]
    · simp [MethodSlots.noteLine, SortedMap.update, heq, SortedMap.get?_insert_of_ne]
  have hmono : ∀ site, (slots.slot? site).isSome →
      ((slots.noteLine number slot).slot? site).isSome := by
    intro site hsite
    cases site with
    | line other =>
        simp only [slot?, hlines]
        split
        · rfl
        · exact hsite
    | _ => exact hsite
  refine ⟨⟨?_, fun kept hkept => hmono _ (h.line kept hkept),
    fun kept hkept site hsite => hmono _ (h.outcome kept hkept site hsite)⟩, ?_⟩
  · intro site found hfound
    cases site with
    | line other =>
        simp only [slot?, hlines] at hfound
        by_cases heq : other = number
        · subst heq
          rw [if_pos rfl, Option.some.injEq] at hfound
          cases hold : slots.lines.get? other with
          | some old =>
              rw [hold, Option.getD_some] at hfound
              exact h.sound (.line other) found (hfound ▸ hold)
          | none =>
              rw [hold, Option.getD_none] at hfound
              exact hfound ▸ hslot
        · rw [if_neg heq] at hfound
          exact h.sound (.line other) found hfound
    | _ => exact h.sound _ found hfound
  · simp [slot?, hlines]

/-- A marker of a line whose slot is known needs nothing more. -/
theorem addMarker (h : slots.Fits method here meanings) {marker : Marker}
    (hline : (slots.slot? (.line marker.line)).isSome) :
    slots.Fits method (here ++ [.line marker]) meanings where
  sound := h.sound
  line other hother := by
    rcases List.mem_append.1 hother with hother | hother
    · exact h.line other hother
    · obtain rfl := List.mem_singleton.1 hother
      exact hline
  outcome other hother site hsite := by
    rcases List.mem_append.1 hother with hother | hother
    · exact h.outcome other hother site hsite
    · obtain rfl := List.mem_singleton.1 hother
      simp [Kept.outcomes] at hsite

/-- A branch whose position has no slots yet gets them. -/
theorem addBranch {slots' : MethodSlots} {more : List Occurrence} {index : Nat} (kept : Kept)
    (h : slots.Fits method here meanings) (hline : (slots.slot? (.line kept.number)).isSome)
    (hindex : kept.branch? = some index) (hfresh : ∀ other ∈ here, other.branch? ≠ some index)
    (hother : ∀ site, (∀ deed, site.occurrence method ≠ .performs method index deed) →
      slots'.slot? site = slots.slot? site)
    (hsound : ∀ site slot, slots'.slot? site = some slot →
      (meanings ++ more)[slot]? = some (site.occurrence method))
    (houtcome : ∀ site, site.occurrence method ∈ kept.outcomes method →
      (slots'.slot? site).isSome) :
    slots'.Fits method (here ++ [kept]) (meanings ++ more) := by
  have hlines : ∀ number, slots'.slot? (.line number) = slots.slot? (.line number) :=
    fun number => hother _ (by simp [ProbeSite.occurrence])
  refine ⟨hsound, ?_, ?_⟩
  · intro other hmem
    rw [hlines]
    rcases List.mem_append.1 hmem with hmem | hmem
    · exact h.line other hmem
    · obtain rfl := List.mem_singleton.1 hmem
      exact hline
  · intro other hmem site hsite
    rcases List.mem_append.1 hmem with hmem | hmem
    · rw [hother site]
      · exact h.outcome other hmem site hsite
      · intro deed hdeed
        obtain ⟨index', deed', hindex', heq⟩ := Kept.eq_performs_of_mem hsite
        rw [hdeed] at heq
        cases heq
        exact hfresh other hmem hindex'
    · obtain rfl := List.mem_singleton.1 hmem
      exact houtcome site hsite

/-- A jump gets its slots. -/
theorem addJump {more : List Occurrence} {site : JumpSite} {jump : JumpRecord}
    (h : slots.Fits method here meanings) (hline : (slots.slot? (.line site.line)).isSome)
    (hfresh : ∀ other ∈ here, other.branch? ≠ some site.index)
    (hmeans : jump.Means (meanings ++ more) (method, site)) :
    ({ slots with jumps := slots.jumps.insert site.index ⟨jump.takenSlot, jump.notTakenSlot⟩ } :
      MethodSlots).Fits method (here ++ [.jump site]) (meanings ++ more) := by
  refine h.addBranch (.jump site) hline rfl hfresh ?_ ?_ ?_
  · intro other hother
    cases other with
    | taken i | notTaken i =>
        have hne : i ≠ site.index := fun heq => hother _ (by rw [heq]; rfl)
        simp only [slot?, SortedMap.get?_insert_of_ne _ _ hne]
    | _ => rfl
  · intro other slot hslot
    cases other with
    | taken i =>
        by_cases heq : i = site.index
        · subst heq
          simp only [slot?, SortedMap.get?_insert_self, Option.map_some, Option.some.injEq] at hslot
          exact hslot ▸ hmeans.1
        · simp only [slot?, SortedMap.get?_insert_of_ne _ _ heq] at hslot
          exact getElem?_append_of_some (h.sound (.taken i) slot hslot) more
    | notTaken i =>
        by_cases heq : i = site.index
        · subst heq
          simp only [slot?, SortedMap.get?_insert_self, Option.map_some, Option.some.injEq] at hslot
          exact hslot ▸ hmeans.2
        · simp only [slot?, SortedMap.get?_insert_of_ne _ _ heq] at hslot
          exact getElem?_append_of_some (h.sound (.notTaken i) slot hslot) more
    | line n => exact getElem?_append_of_some (h.sound (.line n) slot hslot) more
    | case i pos => exact getElem?_append_of_some (h.sound (.case i pos) slot hslot) more
    | otherwise i => exact getElem?_append_of_some (h.sound (.otherwise i) slot hslot) more
  · intro other hother
    simp only [Kept.outcomes, List.mem_cons, List.not_mem_nil, or_false] at hother
    rcases hother with hother | hother
    · obtain rfl := ProbeSite.occurrence_inj (b := .taken site.index) hother
      simp [slot?, SortedMap.get?_insert_self]
    · obtain rfl := ProbeSite.occurrence_inj (b := .notTaken site.index) hother
      simp [slot?, SortedMap.get?_insert_self]

/-- A switch gets its slots. -/
theorem addSwitch {more : List Occurrence} {site : SwitchSite} {switch : SwitchRecord}
    (h : slots.Fits method here meanings) (hline : (slots.slot? (.line site.line)).isSome)
    (hfresh : ∀ other ∈ here, other.branch? ≠ some site.index)
    (hmeans : switch.Means (meanings ++ more) (method, site)) :
    ({ slots with
      switches := slots.switches.insert site.index ⟨switch.keySlots, switch.defaultSlot⟩ } :
        MethodSlots).Fits method (here ++ [.switch site]) (meanings ++ more) := by
  refine h.addBranch (.switch site) hline rfl hfresh ?_ ?_ ?_
  · intro other hother
    cases other with
    | case i pos | otherwise i =>
        have hne : i ≠ site.index := fun heq => hother _ (by rw [heq]; rfl)
        simp only [slot?, SortedMap.get?_insert_of_ne _ _ hne]
    | _ => rfl
  · intro other slot hslot
    cases other with
    | case i pos =>
        by_cases heq : i = site.index
        · subst heq
          simp only [slot?, SortedMap.get?_insert_self, Option.bind_some] at hslot
          exact hmeans.case pos slot hslot
        · simp only [slot?, SortedMap.get?_insert_of_ne _ _ heq] at hslot
          exact getElem?_append_of_some (h.sound (.case i pos) slot hslot) more
    | otherwise i =>
        by_cases heq : i = site.index
        · subst heq
          simp only [slot?, SortedMap.get?_insert_self, Option.bind_some] at hslot
          exact hmeans.otherwise slot hslot
        · simp only [slot?, SortedMap.get?_insert_of_ne _ _ heq] at hslot
          exact getElem?_append_of_some (h.sound (.otherwise i) slot hslot) more
    | line n => exact getElem?_append_of_some (h.sound (.line n) slot hslot) more
    | taken i => exact getElem?_append_of_some (h.sound (.taken i) slot hslot) more
    | notTaken i => exact getElem?_append_of_some (h.sound (.notTaken i) slot hslot) more
  · intro other hother
    rcases List.mem_append.1 hother with hother | hother
    · obtain ⟨pos, hpos, heq⟩ := List.mem_map.1 hother
      obtain rfl := ProbeSite.occurrence_inj (a := .case site.index pos) heq
      have hlt : pos < switch.keySlots.length := hmeans.length ▸ List.mem_range.1 hpos
      simp [slot?, SortedMap.get?_insert_self, hlt]
    · have hdefault := hmeans.default
      cases hretracted : site.defaultRetracted with
      | true => simp [hretracted] at hother
      | false =>
          simp only [hretracted, Bool.false_eq_true, if_false, List.mem_singleton] at hother
          obtain rfl := ProbeSite.occurrence_inj (b := .otherwise site.index) hother
          simpa [slot?, SortedMap.get?_insert_self, hretracted] using hdefault

end Fits

end MethodSlots

namespace ClassRecord.Layout

variable {record : ClassRecord} {entries : List (Nat × Kept)} {meanings : List Occurrence}
  {method : Nat} {slots : MethodSlots} {here : List Kept}

section Branches

variable {line : LineRecord} (h : record.Layout entries meanings)
  (hfits : slots.Fits method here meanings)

include h hfits

/-- A jump on a line with a record gets its slots. -/
theorem assignJump {site : JumpSite} (hline : record.line? site.line = some line)
    (hnumber : (slots.slot? (.line site.line)).isSome)
    (hfresh : ∀ index, (Kept.jump site).branch? = some index →
      (method, index) ∉ branchesOf entries)
    (hhere : ∀ other ∈ here, other.branch? ≠ some site.index) :
    (({ record with slotCount := record.slotCount + 2 } : ClassRecord).modifyLine site.line
        fun line => { line with
          jumps := line.jumps ++
            [{ takenSlot := record.slotCount, notTakenSlot := record.slotCount + 1 }] }).Layout
        (entries ++ [(method, .jump site)]) (meanings ++ (Kept.jump site).outcomes method) ∧
      ({ slots with
        jumps := slots.jumps.insert site.index ⟨record.slotCount, record.slotCount + 1⟩ } :
          MethodSlots).Fits method (here ++ [.jump site])
        (meanings ++ (Kept.jump site).outcomes method) := by
  have hmeans := JumpRecord.means_fresh meanings method site
  rw [h.length] at hmeans
  refine ⟨h.addBranch (.jump site) hline hfresh _ rfl ?_ ?_, hfits.addJump hnumber hhere hmeans⟩
  · rw [sitesOn_append, sitesOn_singleton]
    exact List.rel_append ((h.jumps _ _ hline).imp fun _ _ h => h.append _) (.cons hmeans .nil)
  · rw [sitesOn_append_of_none _ rfl]
    exact (h.switches _ _ hline).imp fun _ _ h => h.append _

/-- A switch on a line with a record gets its slots. -/
theorem assignSwitch {site : SwitchSite} (hline : record.line? site.line = some line)
    (hnumber : (slots.slot? (.line site.line)).isSome)
    (hfresh : ∀ index, (Kept.switch site).branch? = some index →
      (method, index) ∉ branchesOf entries)
    (hhere : ∀ other ∈ here, other.branch? ≠ some site.index) {cases : List Nat}
    {otherwise : Option Nat} (hcases : cases = List.range' record.slotCount site.keys.length)
    (hotherwise : otherwise =
      if site.defaultRetracted then none else some (record.slotCount + site.keys.length)) :
    (({ record with slotCount := record.slotCount + site.keys.length +
        if site.defaultRetracted then 0 else 1 } : ClassRecord).modifyLine site.line
        fun line => { line with
          switches := line.switches ++ [SwitchRecord.fresh site.keys cases otherwise] }).Layout
        (entries ++ [(method, .switch site)]) (meanings ++ (Kept.switch site).outcomes method) ∧
      ({ slots with switches := slots.switches.insert site.index ⟨cases, otherwise⟩ } :
          MethodSlots).Fits method (here ++ [.switch site])
        (meanings ++ (Kept.switch site).outcomes method) := by
  have hmeans := SwitchRecord.means_fresh meanings method site
  rw [h.length, ← hcases, ← hotherwise] at hmeans
  have hcount : ((Kept.switch site).outcomes method).length =
      site.keys.length + if site.defaultRetracted then 0 else 1 := by
    cases h : site.defaultRetracted <;> simp [Kept.outcomes, h]
  constructor
  · rw [Nat.add_assoc, ← hcount]
    refine h.addBranch (.switch site) hline hfresh _ rfl ?_ ?_
    · rw [sitesOn_append_of_none _ rfl]
      exact (h.jumps _ _ hline).imp fun _ _ h => h.append _
    · rw [sitesOn_append, sitesOn_singleton]
      exact List.rel_append ((h.switches _ _ hline).imp fun _ _ h => h.append _)
        (.cons hmeans .nil)
  · exact hfits.addSwitch hnumber hhere hmeans

end Branches

/-- One kept entry gets its slots. -/
theorem assignKept (h : record.Layout entries meanings) (hfits : slots.Fits method here meanings)
    (hhere : ∀ kept ∈ here, (method, kept) ∈ entries) (kept : Kept)
    (hfresh : ∀ index, kept.branch? = some index → (method, index) ∉ branchesOf entries)
    (signature : String) :
    ∃ more, (record.assignKept signature slots kept).1.Layout (entries ++ [(method, kept)])
        (meanings ++ more) ∧
      (record.assignKept signature slots kept).2.Fits method (here ++ [kept])
        (meanings ++ more) := by
  obtain ⟨more, hlayout, hline⟩ := h.lineOrInsert kept.number signature
  obtain ⟨hnoted, hnumber⟩ := (hfits.append more).noteLine (hlayout.line _ _ hline)
  have hfreshHere : ∀ index, kept.branch? = some index → ∀ other ∈ here,
      other.branch? ≠ some index := by
    intro index hindex other hother heq
    exact hfresh index hindex
      (List.mem_filterMap.2 ⟨(method, other), hhere other hother, by rw [heq, Option.map_some]⟩)
  cases kept with
  | line marker =>
      have hknown := Option.isSome_iff_exists.2 ⟨_, hline⟩
      exact ⟨more, hlayout.addMarker hknown, hnoted.addMarker hnumber⟩
  | jump site =>
      refine ⟨more ++ (Kept.jump site).outcomes method, ?_⟩
      rw [← List.append_assoc]
      exact hlayout.assignJump hnoted hline hnumber hfresh (hfreshHere _ rfl)
  | switch site =>
      refine ⟨more ++ (Kept.switch site).outcomes method, ?_⟩
      rw [← List.append_assoc]
      have hassigned := hlayout.assignSwitch hnoted hline hnumber hfresh (hfreshHere _ rfl) rfl rfl
      simp only [ClassRecord.assignKept, ClassRecord.allocateSlots, ClassRecord.allocateSlot,
        Kept.number] at hassigned ⊢
      cases hretracted : site.defaultRetracted <;> simp only [hretracted] at hassigned ⊢ <;>
        exact hassigned

/-- All kept entries of a method get their slots. -/
theorem assignAll (h : record.Layout entries meanings) (hfits : slots.Fits method here meanings)
    (hhere : ∀ kept ∈ here, (method, kept) ∈ entries) (kepts : List Kept)
    (hnodup : (branchesOf (entries ++ kepts.map (Prod.mk method))).Nodup) (signature : String) :
    ∃ more, (ClassRecord.assignAll signature kepts record slots).1.Layout
        (entries ++ kepts.map (Prod.mk method)) (meanings ++ more) ∧
      (ClassRecord.assignAll signature kepts record slots).2.Fits method (here ++ kepts)
        (meanings ++ more) := by
  induction kepts generalizing record slots entries meanings here with
  | nil =>
      refine ⟨[], ?_, ?_⟩
      · rw [List.map_nil, List.append_nil, List.append_nil]
        exact h
      · rw [List.append_nil, List.append_nil]
        exact hfits
  | cons kept rest ih =>
      have hfresh : ∀ index, kept.branch? = some index → (method, index) ∉ branchesOf entries := by
        intro index hindex hmem
        rw [branchesOf, List.filterMap_append, List.nodup_append] at hnodup
        exact hnodup.2.2 _ hmem _
          (List.mem_filterMap.2 ⟨_, List.mem_cons_self, by rw [hindex, Option.map_some]⟩) rfl
      obtain ⟨more, hlayout, hfits'⟩ := h.assignKept hfits hhere kept hfresh signature
      have hhere' : ∀ other ∈ here ++ [kept], (method, other) ∈ entries ++ [(method, kept)] := by
        intro other hother
        rcases List.mem_append.1 hother with hother | hother
        · exact List.mem_append_left _ (hhere other hother)
        · obtain rfl := List.mem_singleton.1 hother
          exact List.mem_append_right _ List.mem_cons_self
      rw [List.map_cons, List.append_cons] at hnodup
      obtain ⟨rest', hlayout', hfits''⟩ := ih hlayout hfits' hhere' hnodup
      refine ⟨more ++ rest', ?_, ?_⟩
      · rw [List.map_cons, List.append_cons, ← List.append_assoc]
        exact hlayout'
      · rw [List.append_cons, ← List.append_assoc]
        exact hfits''

/-- A scanned method gets its slots. -/
theorem assign (h : record.Layout entries meanings) {scan : Scan}
    (hnodup : (branchesOf (entries ++ scan.kept.map (Prod.mk method))).Nodup)
    (signature : String) (count : Bool) :
    ∃ more, (record.assign signature scan count).1.Layout
        (entries ++ scan.kept.map (Prod.mk method)) (meanings ++ more) ∧
      (record.assign signature scan count).2.Fits method scan.kept (meanings ++ more) := by
  obtain ⟨more, hlayout, hfits⟩ :=
    h.assignAll (.empty method meanings) (by simp) scan.kept hnodup signature
  refine ⟨more, ?_, hfits⟩
  rw [ClassRecord.assign]
  dsimp only
  split
  · exact hlayout.addCounts _
  · exact hlayout

end ClassRecord.Layout

/-! ## What is left alone -/

namespace ClassRecord

/-- The second record has other lines and slots at most. -/
def ExtendedBy (record record' : ClassRecord) : Prop :=
  ∃ lines slotCount, record' = { record with lines, slotCount }

namespace ExtendedBy

variable {a b c : ClassRecord}

theorem refl (record : ClassRecord) : record.ExtendedBy record :=
  ⟨_, _, rfl⟩

theorem trans (h₁ : a.ExtendedBy b) (h₂ : b.ExtendedBy c) : a.ExtendedBy c := by
  obtain ⟨_, _, rfl⟩ := h₁
  obtain ⟨_, _, rfl⟩ := h₂
  exact ⟨_, _, rfl⟩

end ExtendedBy

variable (record : ClassRecord)

theorem extends_lineOrInsert (number : UInt32) (signature : String) :
    record.ExtendedBy (record.lineOrInsert number signature).2 := by
  unfold lineOrInsert
  split
  · exact .refl record
  · exact ⟨_, _, rfl⟩

theorem extends_modifyLine (number : UInt32) (f : LineRecord → LineRecord) :
    record.ExtendedBy (record.modifyLine number f) := by
  unfold modifyLine
  split
  · exact ⟨_, _, rfl⟩
  · exact .refl record

theorem extends_assignKept (signature : String) (slots : MethodSlots) (kept : Kept) :
    record.ExtendedBy (record.assignKept signature slots kept).1 := by
  cases kept with
  | line marker => exact record.extends_lineOrInsert marker.line signature
  | jump site =>
      refine (record.extends_lineOrInsert site.line signature).trans ?_
      exact .trans ⟨_, _, rfl⟩ (extends_modifyLine _ _ _)
  | switch site =>
      refine (record.extends_lineOrInsert site.line signature).trans ?_
      simp only [assignKept, allocateSlots, allocateSlot]
      cases site.defaultRetracted <;> exact .trans ⟨_, _, rfl⟩ (extends_modifyLine _ _ _)

theorem extends_assignAll (signature : String) (kepts : List Kept) (slots : MethodSlots) :
    record.ExtendedBy (assignAll signature kepts record slots).1 := by
  induction kepts generalizing record slots with
  | nil => exact .refl record
  | cons kept rest ih => exact (record.extends_assignKept signature slots kept).trans (ih _ _)

theorem extends_addCounts (counts : List (UInt32 × Nat)) :
    record.ExtendedBy (record.addCounts counts) := by
  induction counts generalizing record with
  | nil => exact .refl record
  | cons count rest ih => exact (record.extends_modifyLine _ _).trans (ih _)

theorem extends_assign (signature : String) (scan : Scan) (count : Bool) :
    record.ExtendedBy (record.assign signature scan count).1 := by
  refine (record.extends_assignAll signature scan.kept {}).trans ?_
  unfold assign
  dsimp only
  split
  · exact extends_addCounts _ _
  · exact .refl _

end ClassRecord

end BytecodeCoverage
