import Mathlib.Data.List.Perm.Basic
import BytecodeCoverage.Probe.Code
import BytecodeCoverage.Proofs.Code.Defects
import BytecodeCoverage.Proofs.Probe.Chunks
import BytecodeCoverage.Proofs.Probe.Partition
import BytecodeCoverage.Proofs.Scan.Enumerated

/-!
# Split code and slots agree

Splitting the branches of a body and handing out the slots of its method both start from what the
scan kept, each in its own way: the places for probes come from the diverted instructions and the
windows of their targets, the slots from the kept entries.  Both lead to the same sites.

The probe of every outcome is in the window of the outcome or behind its instruction, and the window
is written out because the label that it leads to is placed.

**Main definitions.**
* `Scan.sites`: the sites of what a scan kept, entry by entry.
* `Plan.sitesAt`: the sites of one instruction.
* `MethodSlots.all`: the slots of a method.

**Results.**
* `Diverted.probes_writeOut`: the places for probes in split code.
* `Plan.sites_divertAll`: they are those of the instructions, one by one.
* `Scan.sites_perm`: the instructions have the sites of what the scan kept.
* `MethodSlots.isSome_assign`: the sites with slots.
* `Body.sites_of_split`: split code and slots agree.
-/

namespace BytecodeCoverage

/-! ## What a scan kept -/

/-- The outcomes of a jump. -/
def JumpSite.sites (site : JumpSite) : List ProbeSite :=
  [.taken site.index, .notTaken site.index]

/-- The outcomes of a switch: one for each key, and the default unless it is retracted. -/
def SwitchSite.sites (site : SwitchSite) : List ProbeSite :=
  (List.range site.keys.length).map (ProbeSite.case site.index) ++
    if site.defaultRetracted then [] else [.otherwise site.index]

/-- The sites of the kept markers, jumps and switches. -/
def Scan.sites (scan : Scan) : List ProbeSite :=
  scan.keptMarkers.map (fun marker => .line marker.line) ++
    scan.survivingJumps.flatMap JumpSite.sites ++ scan.survivingSwitches.flatMap SwitchSite.sites

/-! ## The places for probes in split code -/

/-- The sites of the places for probes. -/
def Item.sites (items : List Item) : List ProbeSite :=
  items.filterMap fun
    | .insn _ => none
    | .probe site => some site

namespace Item

@[simp] theorem sites_nil : sites [] = [] := rfl

@[simp] theorem sites_insn (insn : Instruction) (rest : List Item) :
    sites (.insn insn :: rest) = sites rest := rfl

@[simp] theorem sites_probe (site : ProbeSite) (rest : List Item) :
    sites (.probe site :: rest) = site :: sites rest := rfl

@[simp] theorem sites_append (a b : List Item) : sites (a ++ b) = sites a ++ sites b :=
  List.filterMap_append

end Item

namespace Window

theorem sites_chain (destination : Label) (windows : List Window) :
    Item.sites (chain destination windows) = windows.map site := by
  induction windows with
  | nil => rfl
  | cons w rest ih =>
      cases rest with
      | nil => rfl
      | cons next rest => simpa [chain] using ih

theorem sites_before (destination : Label) (reachable : Bool) (windows : List Window) :
    Item.sites (before destination reachable windows) = windows.map site := by
  cases windows with
  | nil => rfl
  | cons w rest =>
      rw [before, Item.sites_append, sites_chain]
      cases reachable <;> rfl

end Window

namespace Diverted

theorem sites_items (d : Diverted) : Item.sites d.items = d.probe.toList := by
  cases h : d.probe <;> simp [items, h]

/-- Each window is written out once, if the label that it leads to is placed. -/
theorem probes_writeOut (windows : List Window) (reachable : Bool) (ds : List Diverted)
    (hplaced : ∀ w ∈ windows, w.destination ∈ Body.placedIn (ds.map Diverted.insn)) :
    (Item.sites (writeOut windows reachable ds)).Perm
      (windows.map Window.site ++ ds.flatMap fun d => d.probe.toList) := by
  induction ds generalizing windows reachable with
  | nil =>
      have hnone : windows = [] := List.eq_nil_iff_forall_not_mem.2 fun w hw => by
        simpa [Body.placedIn] using hplaced w hw
      subst hnone
      exact .refl _
  | cons d rest ih =>
      by_cases hlabel : ∃ placed, d.insn = .label placed
      · obtain ⟨placed, hinsn⟩ := hlabel
        let here := windows.filter fun w => w.destination = placed
        let later := windows.filter fun w => w.destination ≠ placed
        have hlater := ih later (d.passes reachable) fun w hw => by
          obtain ⟨hw, hne⟩ := List.mem_filter.1 hw
          have hmem := hplaced w hw
          rw [List.map_cons, hinsn, Body.placedIn, List.mem_cons] at hmem
          exact hmem.resolve_left (by simpa using hne)
        have hboth : (here.map Window.site ++ later.map Window.site).Perm
            (windows.map Window.site) := by
          rw [← List.map_append]
          refine .map _ ?_
          simpa [here, later] using
            List.filter_append_perm (fun w : Window => w.destination = placed) windows
        have hwrite : Item.sites (writeOut windows reachable (d :: rest)) =
            here.map Window.site ++
              (d.probe.toList ++ Item.sites (writeOut later (d.passes reachable) rest)) := by
          simp only [writeOut, hinsn, Item.sites_append, Window.sites_before, sites_items, here,
            later]
        rw [hwrite, List.flatMap_cons]
        refine ((hlater.append_left _).append_left _).trans ?_
        refine ((List.perm_append_comm_assoc _ _ _).append_left _).trans ?_
        rw [← List.append_assoc]
        exact hboth.append_right _
      · have hother : ∀ placed, d.insn ≠ .label placed := fun placed heq => hlabel ⟨placed, heq⟩
        have hrest := ih windows (d.passes reachable) fun w hw => by
          have hmem := hplaced w hw
          rw [List.map_cons] at hmem
          revert hmem hother
          cases d.insn <;> intro hother hmem <;>
            first | exact absurd rfl (hother _) | exact hmem
        rw [writeOut_of_other hother, Item.sites_append, sites_items, List.flatMap_cons]
        exact (hrest.append_left _).trans (List.perm_append_comm_assoc _ _ _)

end Diverted

/-! ## One instruction -/

namespace Plan

variable (plan : Plan)

/-- The site of a marker. -/
def lineSites (i : Nat) : Instruction → List ProbeSite
  | .line number => if plan.lines.contains i then [.line number] else []
  | _ => []

/-- The sites of a jump. -/
def jumpSites (i : Nat) : Instruction → List ProbeSite
  | .jump .. => if plan.jumps.contains i then [.taken i, .notTaken i] else []
  | _ => []

/-- The sites of a switch. -/
def switchSites (i : Nat) : Instruction → List ProbeSite
  | .tableSwitch _ _ _ targets | .lookupSwitch _ _ targets =>
      match plan.switches.get? i with
      | some site =>
          (List.range targets.length).map (ProbeSite.case i) ++
            if site.defaultRetracted then [] else [.otherwise i]
      | none => []
  | _ => []

/-- The sites of the instruction at a position. -/
def sitesAt (i : Nat) (insn : Instruction) : List ProbeSite :=
  plan.lineSites i insn ++ (plan.jumpSites i insn ++ plan.switchSites i insn)

theorem sites_ofTargets (index pos : Nat) (fresh : UInt32) (targets : List Label) :
    (Window.ofTargets index pos fresh targets).map Window.site =
      (List.range' pos targets.length).map (ProbeSite.case index) := by
  induction targets generalizing pos fresh with
  | nil => rfl
  | cons target rest ih => simp [Window.ofTargets, ih, List.range'_succ]

/-- The windows of a switch have its sites. -/
theorem sites_ofSwitch (site : SwitchSite) (index : Nat) (fresh : UInt32) (otherwise : Label)
    (targets : List Label) :
    (Window.ofSwitch site index fresh otherwise targets).map Window.site =
      (List.range targets.length).map (ProbeSite.case index) ++
        if site.defaultRetracted then [] else [.otherwise index] := by
  rw [Window.ofSwitch, List.map_append, sites_ofTargets, List.range_eq_range']
  split <;> rfl

/-- The windows of an instruction and the probe behind it have its sites. -/
theorem sites_divert (index : Nat) (fresh : UInt32) (insn : Instruction) :
    (plan.divert index fresh insn).2.map Window.site ++
        (plan.divert index fresh insn).1.probe.toList = plan.sitesAt index insn := by
  cases insn with
  | line number =>
      simp only [divert, sitesAt, lineSites, jumpSites, switchSites]
      split <;> rfl
  | jump op target =>
      simp only [divert, sitesAt, lineSites, jumpSites, switchSites]
      split <;> rfl
  | tableSwitch low high otherwise targets | lookupSwitch otherwise keys targets =>
      simp only [divert, sitesAt, lineSites, jumpSites, switchSites]
      cases plan.switches.get? index with
      | none => rfl
      | some site => simp [sites_ofSwitch]
  | _ => rfl

/-- All windows and all probes behind instructions have the sites of the instructions. -/
theorem sites_divertAll (index : Nat) (fresh : UInt32) (code : List Instruction) :
    ((plan.divertAll index fresh code).2.map Window.site ++
        (plan.divertAll index fresh code).1.flatMap fun d => d.probe.toList).Perm
      ((List.range code.length).flatMap fun i =>
        (code[i]?.map (plan.sitesAt (index + i))).getD []) := by
  induction code generalizing index fresh with
  | nil => exact .refl _
  | cons insn rest ih =>
      have hrest := ih (index + 1) (fresh + (plan.divert index fresh insn).2.length)
      have hlater : ((List.range (insn :: rest).length).flatMap fun i =>
          ((insn :: rest)[i]?.map (plan.sitesAt (index + i))).getD []) =
          plan.sitesAt index insn ++ (List.range rest.length).flatMap fun i =>
            (rest[i]?.map (plan.sitesAt (index + 1 + i))).getD [] := by
        rw [List.length_cons, List.range_succ_eq_map, List.flatMap_cons, List.flatMap_map]
        simp [Nat.add_assoc, Nat.add_comm 1]
      rw [hlater, ← plan.sites_divert index fresh insn]
      simp only [divertAll, List.map_append, List.flatMap_cons, List.append_assoc]
      refine .append_left _ ?_
      exact (List.perm_append_comm_assoc _ _ _).trans (hrest.append_left _)

end Plan

/-! ## The sites of what is kept -/

/-- What stands at some positions, position by position. -/
theorem flatMap_range_perm {α β : Type} (index : α → Nat) (sites : α → List β) {l : List α}
    (hnodup : (l.map index).Nodup) {n : Nat} (hlt : ∀ a ∈ l, index a < n) {at' : Nat → List β}
    (hat : ∀ a ∈ l, at' (index a) = sites a) (hnone : ∀ i, (∀ a ∈ l, index a ≠ i) → at' i = []) :
    ((List.range n).flatMap at').Perm (l.flatMap sites) := by
  have hsome : ((List.range n).filter fun i => i ∈ l.map index).Perm (l.map index) := by
    refine (List.perm_ext_iff_of_nodup (List.nodup_range.filter _) hnodup).2 fun i => ?_
    rw [List.mem_filter, List.mem_range, decide_eq_true_eq]
    refine and_iff_right_of_imp fun hi => ?_
    obtain ⟨a, ha, rfl⟩ := List.mem_map.1 hi
    exact hlt a ha
  have hother : ((List.range n).filter fun i => !decide (i ∈ l.map index)).flatMap at' = [] := by
    refine List.flatMap_eq_nil_iff.2 fun i hi => hnone i fun a ha heq => ?_
    have hnot := (List.mem_filter.1 hi).2
    exact absurd (List.mem_map.2 ⟨a, ha, heq⟩) (by simpa using hnot)
  have hall := (List.filter_append_perm (fun i => decide (i ∈ l.map index))
    (List.range n)).flatMap_right at'
  rw [List.flatMap_append, hother, List.append_nil] at hall
  refine hall.symm.trans ((hsome.flatMap_right at').trans ?_)
  rw [List.flatMap_map]
  exact .of_eq (List.flatMap_congr hat)

namespace Scan

variable {scan : Scan} {code : List Instruction}

theorem nodup_survivingJumps {stop : Nat} (hsited : scan.outline.Sited code stop) :
    (scan.survivingJumps.map JumpSite.index).Nodup :=
  (hsited.jumpOrder.imp Nat.ne_of_lt).sublist (List.filter_sublist.map _)

theorem nodup_survivingSwitches {stop : Nat} (hsited : scan.outline.Sited code stop) :
    (scan.survivingSwitches.map SwitchSite.index).Nodup := by
  have hall := hsited.switchOrder.imp Nat.ne_of_lt
  rw [outline, List.map_map] at hall
  exact hall.sublist (List.filter_sublist.map _)

/-- The sites of the kept markers are at the markers. -/
theorem lines_perm (hsited : scan.outline.Sited code code.length)
    (horder : (scan.markers.map Marker.index).Pairwise (· < ·)) :
    ((List.range code.length).flatMap fun i =>
        (code[i]?.map ((Plan.ofScan scan).lineSites i)).getD []).Perm
      (scan.keptMarkers.map fun marker => .line marker.line) := by
  have hstands : ∀ marker ∈ scan.keptMarkers, code[marker.index]? = some (.line marker.line) :=
    fun marker hmarker => hsited.marker (marker.index, marker.line)
      (List.mem_map.2 ⟨marker, List.mem_of_mem_filter hmarker, rfl⟩)
  have hnodup : (scan.keptMarkers.map Marker.index).Nodup :=
    (horder.imp Nat.ne_of_lt).sublist (List.filter_sublist.map _)
  rw [List.map_eq_flatMap]
  refine flatMap_range_perm Marker.index _ hnodup (fun marker hmarker =>
    (List.getElem?_eq_some_iff.1 (hstands marker hmarker)).1) (fun marker hmarker => ?_)
    fun i hi => ?_
  · rw [hstands marker hmarker, Option.map_some, Option.getD_some, Plan.lineSites]
    refine if_pos ?_
    rw [List.contains_iff_mem]
    exact List.mem_map_of_mem hmarker
  · have hnot : i ∉ (Plan.ofScan scan).lines := fun hmem => by
      obtain ⟨marker, hmarker, heq⟩ := List.mem_map.1 hmem
      exact hi marker hmarker heq
    cases code[i]? with
    | none => rfl
    | some insn => cases insn <;> simp [Plan.lineSites, hnot]

/-- The sites of the surviving jumps are at the jumps. -/
theorem jumps_perm (hsited : scan.outline.Sited code code.length) :
    ((List.range code.length).flatMap fun i =>
        (code[i]?.map ((Plan.ofScan scan).jumpSites i)).getD []).Perm
      (scan.survivingJumps.flatMap JumpSite.sites) := by
  have hstands : ∀ site ∈ scan.survivingJumps, site.index < code.length ∧
      ∃ op target, code[site.index]? = some (.jump op target) := fun site hsite =>
    hsited.jump site.index (List.mem_map.2 ⟨site, List.mem_of_mem_filter hsite, rfl⟩)
  refine flatMap_range_perm JumpSite.index _ (nodup_survivingJumps hsited)
    (fun site hsite => (hstands site hsite).1) (fun site hsite => ?_) fun i hi => ?_
  · obtain ⟨-, op, target, hjump⟩ := hstands site hsite
    rw [hjump, Option.map_some, Option.getD_some, Plan.jumpSites]
    refine if_pos ?_
    rw [List.contains_iff_mem]
    exact List.mem_map_of_mem hsite
  · have hnot : i ∉ (Plan.ofScan scan).jumps := fun hmem => by
      obtain ⟨site, hsite, heq⟩ := List.mem_map.1 hmem
      exact hi site hsite heq
    cases code[i]? with
    | none => rfl
    | some insn => cases insn <;> simp [Plan.jumpSites, hnot]

/-- The sites of the surviving switches are at the switches, whose keys are as many as their
targets. -/
theorem switches_perm (hsited : scan.outline.Sited code code.length)
    (hshaped : ∀ insn ∈ code, insn.WellShaped) :
    ((List.range code.length).flatMap fun i =>
        (code[i]?.map ((Plan.ofScan scan).switchSites i)).getD []).Perm
      (scan.survivingSwitches.flatMap SwitchSite.sites) := by
  have hstands : ∀ site ∈ scan.survivingSwitches, site.index < code.length ∧
      ∃ insn, code[site.index]? = some insn ∧ insn.switchKeys? = some site.keys :=
    fun site hsite => hsited.switch (site.index, site.keys)
      (List.mem_map.2 ⟨site, List.mem_of_mem_filter hsite, rfl⟩)
  have hnodup := nodup_survivingSwitches hsited
  have hfst : (scan.survivingSwitches.map fun site => (site.index, site)).map Prod.fst =
      scan.survivingSwitches.map SwitchSite.index := by
    rw [List.map_map]
    rfl
  refine flatMap_range_perm SwitchSite.index _ hnodup (fun site hsite => (hstands site hsite).1)
    (fun site hsite => ?_) fun i hi => ?_
  · obtain ⟨-, insn, hinsn, hkeys⟩ := hstands site hsite
    have hplan : (Plan.ofScan scan).switches.get? site.index = some site :=
      SortedMap.get?_ofList_of_mem (hfst ▸ hnodup) (List.mem_map.2 ⟨site, hsite, rfl⟩)
    have hlength := Instruction.WellShaped.length_targets
      (hshaped insn (List.mem_of_getElem? hinsn)) hkeys
    rw [hinsn, Option.map_some, Option.getD_some]
    cases insn with
    | tableSwitch low high otherwise targets | lookupSwitch otherwise keys targets =>
        simp only [Instruction.targets, List.tail_cons] at hlength
        simp only [Plan.switchSites, hplan, SwitchSite.sites, hlength]
    | _ => cases hkeys
  · have hnot : (Plan.ofScan scan).switches.get? i = none := by
      refine (SortedMap.get?_insertAll_of_notMem ?_).trans rfl
      rw [hfst]
      intro hmem
      obtain ⟨site, hsite, heq⟩ := List.mem_map.1 hmem
      exact hi site hsite heq
    cases code[i]? with
    | none => rfl
    | some insn => cases insn <;> simp [Plan.switchSites, hnot]

/-- The instructions have the sites of what the scan kept. -/
theorem sites_perm (hsited : scan.outline.Sited code code.length)
    (horder : (scan.markers.map Marker.index).Pairwise (· < ·))
    (hshaped : ∀ insn ∈ code, insn.WellShaped) :
    ((List.range code.length).flatMap fun i =>
        (code[i]?.map ((Plan.ofScan scan).sitesAt i)).getD []).Perm scan.sites := by
  have hparts : (List.range code.length).flatMap (fun i =>
      (code[i]?.map ((Plan.ofScan scan).sitesAt i)).getD []) =
        (List.range code.length).flatMap fun i =>
          (code[i]?.map ((Plan.ofScan scan).lineSites i)).getD [] ++
            ((code[i]?.map ((Plan.ofScan scan).jumpSites i)).getD [] ++
              (code[i]?.map ((Plan.ofScan scan).switchSites i)).getD []) :=
    List.flatMap_congr fun i _ => by cases code[i]? <;> rfl
  rw [hparts, sites, List.append_assoc]
  refine (List.flatMap_append_perm _ _ _).symm.trans ((lines_perm hsited horder).append ?_)
  exact (List.flatMap_append_perm _ _ _).symm.trans
    ((jumps_perm hsited).append (switches_perm hsited hshaped))

end Scan

/-! ## The sites with slots -/

namespace MethodSlots

/-- All slots of a method. -/
def all (slots : MethodSlots) : List Nat :=
  slots.lines.values ++ slots.jumps.values.flatMap (fun s => [s.taken, s.notTaken]) ++
    slots.switches.values.flatMap fun s => s.cases ++ s.otherwise.toList

/-- Every slot is that of some site. -/
theorem exists_of_mem_all {slots : MethodSlots} {slot : Nat} (h : slot ∈ slots.all) :
    ∃ site, slots.slot? site = some slot := by
  rcases List.mem_append.1 h with h | h
  · rcases List.mem_append.1 h with h | h
    · obtain ⟨⟨number, _⟩, hentry, rfl⟩ := List.mem_map.1 h
      exact ⟨.line number, SortedMap.mem_entries.1 hentry⟩
    · obtain ⟨jump, hjump, hslot⟩ := List.mem_flatMap.1 h
      obtain ⟨⟨index, _⟩, hentry, rfl⟩ := List.mem_map.1 hjump
      have hget := SortedMap.mem_entries.1 hentry
      rcases List.mem_pair.1 hslot with rfl | rfl
      · exact ⟨.taken index, by rw [slot?, hget]; rfl⟩
      · exact ⟨.notTaken index, by rw [slot?, hget]; rfl⟩
  · obtain ⟨switch, hswitch, hslot⟩ := List.mem_flatMap.1 h
    obtain ⟨⟨index, _⟩, hentry, rfl⟩ := List.mem_map.1 hswitch
    have hget := SortedMap.mem_entries.1 hentry
    rcases List.mem_append.1 hslot with hslot | hslot
    · obtain ⟨pos, hpos⟩ := List.mem_iff_getElem?.1 hslot
      exact ⟨.case index pos, by rw [slot?, hget]; exact hpos⟩
    · exact ⟨.otherwise index, by rw [slot?, hget]; exact Option.mem_toList.1 hslot⟩

variable (slots : MethodSlots) (site : ProbeSite)

/-- A line that is noted has a slot. -/
theorem isSome_noteLine (number : UInt32) (slot : Nat) :
    ((slots.noteLine number slot).slot? site).isSome ↔
      site = .line number ∨ (slots.slot? site).isSome := by
  cases site with
  | line other =>
      simp only [slot?, noteLine, SortedMap.get?_update, Std.LawfulEqOrd.compare_eq_iff_eq,
        ProbeSite.line.injEq]
      split <;> simp_all
  | _ => simp [slot?, noteLine]

/-- A jump that is given slots has slots. -/
theorem isSome_insertJump (index : Nat) (jump : JumpSlots) :
    (({ slots with jumps := slots.jumps.insert index jump } : MethodSlots).slot? site).isSome ↔
      site ∈ [.taken index, .notTaken index] ∨ (slots.slot? site).isSome := by
  cases site with
  | taken other | notTaken other =>
      simp only [slot?, SortedMap.get?_insert, Std.LawfulEqOrd.compare_eq_iff_eq, Option.isSome_map]
      split <;> simp_all
  | _ => simp [slot?]

variable {slots} in
/-- A switch that is given slots has slots, as many as it is given. -/
theorem isSome_insertSwitch {index : Nat} (hfresh : slots.switches.get? index = none)
    (switch : SwitchSlots) :
    (({ slots with switches := slots.switches.insert index switch } : MethodSlots).slot?
        site).isSome ↔
      site ∈ (List.range switch.cases.length).map (ProbeSite.case index) ++
          (if switch.otherwise.isSome then [.otherwise index] else []) ∨
        (slots.slot? site).isSome := by
  cases site with
  | case other pos =>
      simp only [slot?, SortedMap.get?_insert, Std.LawfulEqOrd.compare_eq_iff_eq]
      by_cases hsame : other = index
      · subst hsame
        by_cases hotherwise : switch.otherwise.isSome = true <;> simp [hfresh, hotherwise]
      · rw [if_neg hsame]
        by_cases hotherwise : switch.otherwise.isSome = true <;>
          simp [hotherwise, Ne.symm hsame]
  | otherwise other =>
      simp only [slot?, SortedMap.get?_insert, Std.LawfulEqOrd.compare_eq_iff_eq]
      by_cases hsame : other = index
      · subst hsame
        by_cases hotherwise : switch.otherwise.isSome = true <;> simp_all
      · rw [if_neg hsame]
        by_cases hotherwise : switch.otherwise.isSome = true <;> simp [hotherwise, hsame]
  | _ =>
      by_cases hotherwise : switch.otherwise.isSome = true <;> simp [slot?, hotherwise]

end MethodSlots

namespace ClassRecord

variable (signature : String) (record : ClassRecord) (slots : MethodSlots)

/-- The sites of an entry are given slots. -/
theorem isSome_assignKept (kept : Kept) (hfresh : ∀ site, kept = .switch site →
    slots.switches.get? site.index = none) (site : ProbeSite) :
    ((record.assignKept signature slots kept).2.slot? site).isSome ↔
      site ∈ kept.sites ∨ (slots.slot? site).isSome := by
  cases kept with
  | line marker =>
      simp only [assignKept, MethodSlots.isSome_noteLine, Kept.sites, List.mem_singleton]
  | jump jump =>
      simp only [assignKept, MethodSlots.isSome_insertJump, MethodSlots.isSome_noteLine, Kept.sites,
        List.mem_cons, List.not_mem_nil, or_false]
      tauto
  | switch switch =>
      have hnone : (slots.noteLine switch.line
          (record.lineOrInsert switch.line signature).1.slot).switches.get? switch.index = none :=
        hfresh switch rfl
      cases hdefault : switch.defaultRetracted <;>
        simp only [assignKept, hdefault, MethodSlots.isSome_insertSwitch _ hnone,
          MethodSlots.isSome_noteLine, allocateSlots, List.length_range', Kept.sites, List.mem_cons,
          Option.isSome_some, Option.isSome_none, if_true, Bool.false_eq_true, if_false] <;>
        tauto

/-- Only a switch is given slots of a switch. -/
theorem switches_assignKept {kept : Kept} {index : Nat} (hnone : slots.switches.get? index = none)
    (hother : ∀ site, kept = .switch site → site.index ≠ index) :
    (record.assignKept signature slots kept).2.switches.get? index = none := by
  cases kept with
  | line marker | jump jump => exact hnone
  | switch switch =>
      simp only [assignKept]
      rw [SortedMap.get?_insert_of_ne _ _ (Ne.symm (hother switch rfl))]
      exact hnone

/-- The sites of all entries are given slots. -/
theorem isSome_assignAll (kepts : List Kept)
    (hnodup : ((kepts.filterMap Kept.switch?).map SwitchSite.index).Nodup)
    (hfresh : ∀ site ∈ kepts.filterMap Kept.switch?, slots.switches.get? site.index = none)
    (site : ProbeSite) :
    ((assignAll signature kepts record slots).2.slot? site).isSome ↔
      (∃ kept ∈ kepts, site ∈ kept.sites) ∨ (slots.slot? site).isSome := by
  induction kepts generalizing record slots with
  | nil => simp [assignAll]
  | cons kept rest ih =>
      have hfirst : ∀ switch, kept = .switch switch → slots.switches.get? switch.index = none := by
        rintro switch rfl
        exact hfresh switch (by simp [Kept.switch?])
      have hlater : ∀ switch ∈ rest.filterMap Kept.switch?,
          (record.assignKept signature slots kept).2.switches.get? switch.index = none := by
        intro switch hswitch
        refine switches_assignKept signature record slots (hfresh switch ?_) ?_
        · obtain ⟨other, hother, heq⟩ := List.mem_filterMap.1 hswitch
          exact List.mem_filterMap.2 ⟨other, List.mem_cons_of_mem _ hother, heq⟩
        · rintro first rfl heq
          rw [List.filterMap_cons_some (by rfl : Kept.switch? (.switch first) = some first),
            List.map_cons, List.nodup_cons] at hnodup
          exact hnodup.1 (List.mem_map.2 ⟨switch, hswitch, heq.symm⟩)
      have hrest : ((rest.filterMap Kept.switch?).map SwitchSite.index).Nodup :=
        hnodup.sublist ((List.Sublist.filterMap _ (List.sublist_cons_self kept rest)).map _)
      rw [assignAll, ih _ _ hrest hlater, isSome_assignKept signature record slots kept hfirst]
      simp only [List.mem_cons, exists_eq_or_imp]
      exact or_assoc.symm.trans (or_congr_left or_comm)

end ClassRecord

namespace Scan

variable {scan : Scan} {code : List Instruction}

/-- Jumps and switches are kept with their lines only. -/
theorem mem_sites_iff (site : ProbeSite) :
    site ∈ scan.sites ↔ ∃ kept ∈ scan.kept, site ∈ kept.sites := by
  have hline : ∀ line, scan.keepsLine line = true → .line line ∈ scan.sites := by
    intro line hkeeps
    rw [keepsLine, List.contains_iff_mem] at hkeeps
    obtain ⟨marker, hmarker, rfl⟩ := List.mem_map.1 hkeeps
    exact List.mem_append_left _ (List.mem_append_left _ (List.mem_map.2 ⟨marker, hmarker, rfl⟩))
  constructor
  · intro h
    rcases List.mem_append.1 h with h | h
    · rcases List.mem_append.1 h with h | h
      · obtain ⟨marker, hmarker, rfl⟩ := List.mem_map.1 h
        exact ⟨.line marker, mem_kept.2 (.inl ⟨marker, hmarker, rfl⟩), List.mem_singleton_self _⟩
      · obtain ⟨jump, hjump, hsite⟩ := List.mem_flatMap.1 h
        exact ⟨.jump jump, mem_kept.2 (.inr (.inl ⟨jump, hjump, rfl⟩)),
          List.mem_cons_of_mem _ hsite⟩
    · obtain ⟨switch, hswitch, hsite⟩ := List.mem_flatMap.1 h
      exact ⟨.switch switch, mem_kept.2 (.inr (.inr ⟨switch, hswitch, rfl⟩)),
        List.mem_cons_of_mem _ hsite⟩
  · rintro ⟨kept, hkept, hsite⟩
    rcases mem_kept.1 hkept with ⟨marker, hmarker, rfl⟩ | ⟨jump, hjump, rfl⟩ |
      ⟨switch, hswitch, rfl⟩
    · obtain rfl := List.mem_singleton.1 hsite
      exact hline marker.line (List.contains_iff_mem.2 (List.mem_map_of_mem hmarker))
    · rcases List.mem_cons.1 hsite with rfl | hsite
      · exact hline jump.line (Bool.and_eq_true_iff.1 (List.mem_filter.1 hjump).2).2
      · exact List.mem_append_left _ (List.mem_append_right _
          (List.mem_flatMap.2 ⟨jump, hjump, hsite⟩))
    · rcases List.mem_cons.1 hsite with rfl | hsite
      · exact hline switch.line (Bool.and_eq_true_iff.1 (List.mem_filter.1 hswitch).2).2
      · exact List.mem_append_right _ (List.mem_flatMap.2 ⟨switch, hswitch, hsite⟩)

/-- The sites of what is kept have slots, and no other sites have any. -/
theorem isSome_assign (hsited : scan.outline.Sited code code.length) (record : ClassRecord)
    (signature : String) (count : Bool) (site : ProbeSite) :
    ((record.assign signature scan count).2.slot? site).isSome ↔ site ∈ scan.sites := by
  have hnodup : ((scan.kept.filterMap Kept.switch?).map SwitchSite.index).Nodup := by
    rw [switches_kept hsited]
    exact nodup_survivingSwitches hsited
  have hnone : ((({} : MethodSlots).slot? site).isSome = true) ↔ False := by
    cases site <;> simp [MethodSlots.slot?, SortedMap.get?, SortedMap.empty, SortedMap.findEntry]
  rw [ClassRecord.assign, ClassRecord.isSome_assignAll signature record {} scan.kept hnodup
    fun _ _ => rfl, hnone, or_false, mem_sites_iff]

end Scan

/-- The places for probes in split code are the sites of what the scan kept. -/
theorem Body.probes_perm {body : Body} (h : body.WellFormed) {scan : Scan}
    (hsited : scan.outline.Sited body.code body.code.length)
    (horder : (scan.markers.map Marker.index).Pairwise (· < ·)) :
    (body.split scan).probes.Perm scan.sites := by
  have hplaced : ∀ w ∈ ((Plan.ofScan scan).divertAll 0 body.nextLabel body.code).2,
      w.destination ∈ Body.placedIn
        (((Plan.ofScan scan).divertAll 0 body.nextLabel body.code).1.map Diverted.insn) := by
    intro w hw
    obtain ⟨insn, hinsn, hdestination⟩ := (Plan.ofScan scan).destination_divertAll hw
    rw [(Plan.ofScan scan).placedIn_divertAll]
    exact h.targets insn hinsn _ hdestination
  refine (Diverted.probes_writeOut _ true _ hplaced).trans
    (((Plan.ofScan scan).sites_divertAll 0 body.nextLabel body.code).trans ?_)
  simp only [Nat.zero_add]
  exact Scan.sites_perm hsited horder h.shaped

/-- Splitting the branches of a body without defects makes a place for a probe for each kept marker,
for both outcomes of each surviving jump, and for each key and, unless it is retracted, the default
of each surviving switch; there are no others.  These sites have slots, so that each place gets its
probe, and every slot of the method is that of one of the places. -/
theorem Body.sites_of_split {body : Body} (h : body.check = .ok ()) (options : Options)
    (filters : List Filter) (scope : Scope) {scan : Scan}
    (hscan : options.scan filters scope body = scan) (record : ClassRecord) (signature : String)
    (count : Bool) {slots : MethodSlots}
    (hslots : (record.assign signature scan count).2 = slots) :
    (body.split scan).probes.Perm
        (scan.keptMarkers.map (fun marker => .line marker.line) ++
          scan.survivingJumps.flatMap (fun jump => [.taken jump.index, .notTaken jump.index]) ++
          scan.survivingSwitches.flatMap fun switch =>
            (List.range switch.keys.length).map (ProbeSite.case switch.index) ++
              if switch.defaultRetracted then [] else [.otherwise switch.index]) ∧
      (scan.survivingJumps.map JumpSite.index).Nodup ∧
      (scan.survivingSwitches.map SwitchSite.index).Nodup ∧
      (∀ site ∈ (body.split scan).probes, ∃ slot, slots.slot? site = some slot ∧
        ∀ (style : ProbeStyle) (array : UInt16),
          style.item array slots (.probe site) = style.probe array site slot) ∧
      ∀ slot ∈ slots.all, ∃ site ∈ (body.split scan).probes, slots.slot? site = some slot := by
  subst hscan hslots
  have hsited : (options.scan filters scope body).outline.Sited body.code body.code.length :=
    Scan.sited_ofMethod _ _ _ _
  have hperm := probes_perm (check_eq_ok.1 h) hsited (Scan.pairwise_markers_pass _ _ _)
  have hslot : ∀ site, ((record.assign signature (options.scan filters scope body)
      count).2.slot? site).isSome ↔ site ∈ (body.split (options.scan filters scope body)).probes :=
    fun site => (Scan.isSome_assign hsited record signature count site).trans hperm.mem_iff.symm
  refine ⟨hperm, Scan.nodup_survivingJumps hsited, Scan.nodup_survivingSwitches hsited,
    fun site hsite => ?_, fun slot hmem => ?_⟩
  · obtain ⟨slot, hsome⟩ := Option.isSome_iff_exists.1 ((hslot site).2 hsite)
    exact ⟨slot, hsome, fun style array => by rw [ProbeStyle.item, hsome]⟩
  · obtain ⟨site, hsome⟩ := MethodSlots.exists_of_mem_all hmem
    exact ⟨site, (hslot site).1 (by rw [hsome]; rfl), hsome⟩

/-- The slots of a method with markers that come back. -/
def Returning.slots : MethodSlots :=
  (Returning.cls.blankRecord.assign "run(I)V" Returning.scan true).2

theorem Body.sites_of_split_returning :
    Returning.body.check = .ok () ∧
    (Returning.body.split Returning.scan).probes =
      [.line 1, .notTaken 4, .line 2, .line 1, .taken 4, .case 7 0, .otherwise 7] ∧
    ∀ slot ∈ Returning.slots.all, ∃ site ∈ (Returning.body.split Returning.scan).probes,
      Returning.slots.slot? site = some slot :=
  have hcheck : Returning.body.check = .ok () := by with_unfolding_all rfl
  have hscan : ({ filters := false } : Options).scan Filter.standard
      ⟨Returning.cls, Returning.method⟩ Returning.body = Returning.scan := rfl
  have hslots : (Returning.cls.blankRecord.assign "run(I)V" Returning.scan true).2 =
      Returning.slots := rfl
  ⟨hcheck, by with_unfolding_all rfl,
    (sites_of_split hcheck _ _ _ hscan Returning.cls.blankRecord "run(I)V" true hslots).2.2.2.2⟩

end BytecodeCoverage
