import BytecodeCoverage.Probe.Site
import BytecodeCoverage.Proofs.Scan.Filtered
import Mathlib.Data.List.Sort

/-!
# Where registered entries stand

What a pass registers stands where it says, whatever the filters retract: a marker of a line at a
line marker of that line, a jump at a jump, a switch at a switch with the same keys.  Jumps and
switches are registered in code order, so the kept entries hold them in that order too.

**Main definitions.**
* `Outline`: what is registered, retractions apart.
* `Outline.Sited`: every entry stands where it says.

**Results.**
* `Scan.sited_ofMethod`: what a pass registers.
* `Scan.jumps_kept`, `Scan.switches_kept`: the branches among the kept entries.
-/

namespace BytecodeCoverage

/-- What is registered, retractions apart. -/
structure Outline where
  markers : List (Nat × UInt32)
  jumps : List Nat
  switches : List (Nat × List Int32)

/-- The entries of a scan, whether they are retracted or not. -/
def Scan.outline (scan : Scan) : Outline where
  markers := scan.markers.map fun m => (m.index, m.line)
  jumps := scan.jumps.map JumpSite.index
  switches := scan.switches.map fun s => (s.index, s.keys)

/-- Every entry stands where it says, and branches stand before `stop` and in order. -/
structure Outline.Sited (o : Outline) (code : List Instruction) (stop : Nat) : Prop where
  marker : ∀ m ∈ o.markers, code[m.1]? = some (.line m.2)
  jump : ∀ j ∈ o.jumps, j < stop ∧ ∃ op target, code[j]? = some (.jump op target)
  switch : ∀ s ∈ o.switches, s.1 < stop ∧
    ∃ insn, code[s.1]? = some insn ∧ insn.switchKeys? = some s.2
  jumpOrder : o.jumps.Pairwise (· < ·)
  switchOrder : (o.switches.map Prod.fst).Pairwise (· < ·)

/-! ## Retractions -/

theorem Ledger.outline_bare (ledger : Ledger) : ledger.bare.outline = ledger.outline := by
  simp [bare, Scan.outline, Function.comp_def, Marker.bare, JumpSite.bare, SwitchSite.bare]

namespace Matcher

/-- Nothing that a filter does changes what is registered. -/
theorem outline_observeAll (insn : Instruction) (matchers : List Matcher) (ledger : Ledger) :
    (observeAll insn matchers ledger).2.outline = ledger.outline := by
  rw [← Ledger.outline_bare, bare_observeAll, Ledger.outline_bare]

theorem outline_finishAll (matchers : List Matcher) (ledger : Ledger) :
    (finishAll matchers ledger).outline = ledger.outline := by
  rw [← Ledger.outline_bare, bare_finishAll, Ledger.outline_bare]

end Matcher

/-! ## The pass -/

namespace Outline.Sited

variable {o : Outline} {code : List Instruction} {stop index : Nat}

theorem mono (h : o.Sited code stop) (hle : stop ≤ index) : o.Sited code index where
  marker := h.marker
  jump j hj := ⟨Nat.lt_of_lt_of_le (h.jump j hj).1 hle, (h.jump j hj).2⟩
  switch s hs := ⟨Nat.lt_of_lt_of_le (h.switch s hs).1 hle, (h.switch s hs).2⟩
  jumpOrder := h.jumpOrder
  switchOrder := h.switchOrder

theorem addMarker (h : o.Sited code stop) {number : UInt32}
    (hinsn : code[index]? = some (.line number)) :
    Sited { o with markers := o.markers ++ [(index, number)] } code stop where
  marker := by
    intro m hm
    rcases List.mem_append.1 hm with hm | hm
    · exact h.marker m hm
    · obtain rfl := List.mem_singleton.1 hm
      exact hinsn
  jump := h.jump
  switch := h.switch
  jumpOrder := h.jumpOrder
  switchOrder := h.switchOrder

theorem addJump (h : o.Sited code index) {op : Opcode} {target : Label}
    (hinsn : code[index]? = some (.jump op target)) :
    Sited { o with jumps := o.jumps ++ [index] } code (index + 1) where
  marker := h.marker
  jump := by
    intro j hj
    rcases List.mem_append.1 hj with hj | hj
    · exact (h.mono (Nat.le_succ index)).jump j hj
    · obtain rfl := List.mem_singleton.1 hj
      exact ⟨Nat.lt_succ_self j, op, target, hinsn⟩
  switch := (h.mono (Nat.le_succ index)).switch
  jumpOrder := List.pairwise_append.2 ⟨h.jumpOrder, List.pairwise_singleton _ _, by
    intro j hj k hk
    obtain rfl := List.mem_singleton.1 hk
    exact (h.jump j hj).1⟩
  switchOrder := h.switchOrder

theorem addSwitch (h : o.Sited code index) {insn : Instruction} {keys : List Int32}
    (hinsn : code[index]? = some insn) (hkeys : insn.switchKeys? = some keys) :
    Sited { o with switches := o.switches ++ [(index, keys)] } code (index + 1) where
  marker := h.marker
  jump := (h.mono (Nat.le_succ index)).jump
  switch := by
    intro s hs
    rcases List.mem_append.1 hs with hs | hs
    · exact (h.mono (Nat.le_succ index)).switch s hs
    · obtain rfl := List.mem_singleton.1 hs
      exact ⟨Nat.lt_succ_self _, insn, hinsn, hkeys⟩
  jumpOrder := h.jumpOrder
  switchOrder := by
    rw [List.map_append]
    refine List.pairwise_append.2 ⟨h.switchOrder, List.pairwise_singleton _ _, ?_⟩
    intro j hj k hk
    obtain rfl := List.mem_singleton.1 hk
    obtain ⟨s, hs, rfl⟩ := List.mem_map.1 hj
    exact (h.switch s hs).1

end Outline.Sited

theorem Ledger.outline_countInstruction (ledger : Ledger) :
    ledger.countInstruction.outline = ledger.outline := by
  unfold countInstruction
  split <;> rfl

/-- Registering an instruction. -/
theorem Enumeration.sited_observe (e : Enumeration) {code : List Instruction} {index : Nat}
    {insn : Instruction} (hinsn : code[index]? = some insn) {ledger : Ledger}
    (h : ledger.outline.Sited code index) :
    (e.observe index insn ledger).outline.Sited code (index + 1) := by
  have hadvance : (ledger.advance index).outline = ledger.outline := rfl
  have hcount : (ledger.advance index).countInstruction.outline.Sited code index := by
    rw [Ledger.outline_countInstruction, hadvance]
    exact h
  have hnext := hcount.mono (Nat.le_succ index)
  cases insn with
  | line number =>
      have := (h.mono (Nat.le_succ index)).addMarker hinsn
      simpa [Enumeration.observe, Enumeration.register, Ledger.registerLine, Ledger.advance,
        Scan.outline] using this
  | label placed => exact h.mono (Nat.le_succ index)
  | jump op target =>
      simp only [Enumeration.observe, Enumeration.register]
      split
      · unfold Ledger.registerJump
        split
        · have := hcount.addJump hinsn
          simpa [Scan.outline] using this
        · exact hnext
      · exact hnext
  | tableSwitch low high otherwise targets | lookupSwitch otherwise keys targets =>
      simp only [Enumeration.observe, Enumeration.register, Instruction.switchKeys?]
      split
      · unfold Ledger.registerSwitch
        split
        · have := hcount.addSwitch hinsn rfl
          simpa [Scan.outline] using this
        · exact hnext
      · exact hnext
  | _ => exact hnext

namespace Scan

theorem sited_passFrom (e : Enumeration) {code : List Instruction} {index : Nat}
    {rest : List Instruction} (hrest : code.drop index = rest) (matchers : List Matcher)
    {ledger : Ledger} (h : ledger.outline.Sited code index) :
    (passFrom e index rest matchers ledger).2.outline.Sited code (index + rest.length) := by
  induction rest generalizing index matchers ledger with
  | nil => exact h
  | cons insn rest ih =>
      have hinsn : code[index]? = some insn := by
        rw [← List.head?_drop, hrest]
        rfl
      have hnext : code.drop (index + 1) = rest := by
        rw [← List.tail_drop, hrest]
        rfl
      have hobserved := e.sited_observe hinsn h
      rw [← Matcher.outline_observeAll insn matchers] at hobserved
      rw [List.length_cons, Nat.add_comm rest.length, ← Nat.add_assoc]
      exact ih hnext _ hobserved

/-- What a pass registers stands where it says. -/
theorem sited_ofMethod (branches : Bool) (filters : List Filter) (scope : Scope) (body : Body) :
    (ofMethod branches filters scope body).outline.Sited body.code body.code.length := by
  have hempty : ({} : Ledger).outline.Sited body.code 0 := by
    constructor <;> simp [Scan.outline]
  have hpass := sited_passFrom (.forMethod branches scope) List.drop_zero
    ((Filter.applicable filters scope).map fun filter => Matcher.start filter.pattern) hempty
  rw [Nat.zero_add, ← Matcher.outline_finishAll] at hpass
  exact hpass

end Scan

/-! ## Kept entries -/

namespace Kept

/-- The line of a kept entry. -/
def number : Kept → UInt32
  | .line marker => marker.line
  | .jump site => site.line
  | .switch site => site.line

/-- The jump, if the entry is one. -/
def jump? : Kept → Option JumpSite
  | .jump site => some site
  | _ => none

/-- The switch, if the entry is one. -/
def switch? : Kept → Option SwitchSite
  | .switch site => some site
  | _ => none

end Kept

namespace Scan

variable {scan : Scan} {code : List Instruction} {stop : Nat}

theorem perm_kept (scan : Scan) :
    scan.kept.Perm (scan.keptMarkers.map Kept.line ++ scan.survivingJumps.map Kept.jump ++
      scan.survivingSwitches.map Kept.switch) :=
  List.mergeSort_perm _ _

theorem mem_kept {kept : Kept} : kept ∈ scan.kept ↔
    (∃ marker ∈ scan.keptMarkers, .line marker = kept) ∨
      (∃ site ∈ scan.survivingJumps, .jump site = kept) ∨
        ∃ site ∈ scan.survivingSwitches, .switch site = kept := by
  rw [scan.perm_kept.mem_iff, List.append_assoc, List.mem_append, List.mem_append, List.mem_map,
    List.mem_map, List.mem_map]

/-- Entries whose positions ascend are the kept ones if they are the same up to their order. -/
theorem kept_eq_of_perm {entries : List Kept} (horder : entries.Pairwise (·.index < ·.index))
    (hperm : (scan.keptMarkers.map Kept.line ++ scan.survivingJumps.map Kept.jump ++
      scan.survivingSwitches.map Kept.switch).Perm entries) : scan.kept = entries := by
  have hkept := scan.perm_kept.trans hperm
  have hsorted : entries.Pairwise fun a b => decide (a.index ≤ b.index) = true :=
    horder.imp fun h => decide_eq_true (Nat.le_of_lt h)
  have hdistinct : (entries.map Kept.index).Nodup :=
    List.pairwise_map.2 (horder.imp Nat.ne_of_lt)
  refine hkept.eq_of_pairwise ?_ (List.pairwise_mergeSort ?_ ?_ _) hsorted
  · intro a b ha hb hab hba
    refine List.inj_on_of_nodup_map hdistinct (hkept.mem_iff.1 ha) hb ?_
    exact Nat.le_antisymm (of_decide_eq_true hab) (of_decide_eq_true hba)
  · exact fun a b c => by simpa using Nat.le_trans
  · exact fun a b => by simpa using Nat.le_total a.index b.index

/-- Entries that come in order are found in that order among the kept ones. -/
theorem filterMap_kept {α : Type} (inject : α → Kept) (select : Kept → Option α) (l : List α)
    (hselect : ∀ a, select (inject a) = some a) (horder : (l.map fun a => (inject a).index).Pairwise
      (· < ·)) (hsub : (l.map inject).Sublist (scan.keptMarkers.map Kept.line ++
        scan.survivingJumps.map Kept.jump ++ scan.survivingSwitches.map Kept.switch))
    (hlength : (scan.kept.filterMap select).length = l.length) :
    scan.kept.filterMap select = l := by
  have hsorted : (l.map inject).Pairwise fun a b => decide (a.index ≤ b.index) = true := by
    rw [List.pairwise_map] at horder ⊢
    exact horder.imp fun h => decide_eq_true (Nat.le_of_lt h)
  have hkept : (l.map inject).Sublist scan.kept :=
    List.sublist_mergeSort (fun a b c => by simpa using Nat.le_trans)
      (fun a b => by simpa using Nat.le_total a.index b.index) hsorted hsub
  have hfiltered := hkept.filterMap select
  rw [List.filterMap_map, show select ∘ inject = some from funext hselect, List.filterMap_some]
    at hfiltered
  exact (hfiltered.eq_of_length hlength.symm).symm

theorem filterMap_map_none {α β : Type} (inject : α → Kept) (select : Kept → Option β)
    (l : List α) (h : ∀ a, select (inject a) = none) : (l.map inject).filterMap select = [] := by
  rw [List.filterMap_map]
  exact List.filterMap_eq_nil_iff.2 fun a _ => h a

theorem filterMap_map_some {α : Type} (inject : α → Kept) (select : Kept → Option α)
    (l : List α) (h : ∀ a, select (inject a) = some a) : (l.map inject).filterMap select = l := by
  rw [List.filterMap_map, show select ∘ inject = some from funext h, List.filterMap_some]

/-- The jumps among the kept entries, in order. -/
theorem jumps_kept (h : scan.outline.Sited code stop) :
    scan.kept.filterMap Kept.jump? = scan.survivingJumps := by
  refine filterMap_kept Kept.jump Kept.jump? _ (fun _ => rfl) ?_ ?_ ?_
  · exact h.jumpOrder.sublist (List.filter_sublist.map _)
  · exact (List.sublist_append_right _ _).trans (List.sublist_append_left _ _)
  · rw [(scan.perm_kept.filterMap _).length_eq, List.filterMap_append, List.filterMap_append,
      filterMap_map_none Kept.line Kept.jump? _ fun _ => rfl,
      filterMap_map_some Kept.jump Kept.jump? _ fun _ => rfl,
      filterMap_map_none Kept.switch Kept.jump? _ fun _ => rfl, List.nil_append, List.append_nil]

/-- The switches among the kept entries, in order. -/
theorem switches_kept (h : scan.outline.Sited code stop) :
    scan.kept.filterMap Kept.switch? = scan.survivingSwitches := by
  refine filterMap_kept Kept.switch Kept.switch? _ (fun _ => rfl) ?_ ?_ ?_
  · have := h.switchOrder
    simp only [outline, List.map_map] at this
    exact this.sublist (List.filter_sublist.map _)
  · exact List.sublist_append_right _ _
  · rw [(scan.perm_kept.filterMap _).length_eq, List.filterMap_append, List.filterMap_append,
      filterMap_map_none Kept.line Kept.switch? _ fun _ => rfl,
      filterMap_map_none Kept.jump Kept.switch? _ fun _ => rfl,
      filterMap_map_some Kept.switch Kept.switch? _ fun _ => rfl, List.nil_append, List.nil_append]

end Scan

end BytecodeCoverage
