import BytecodeCoverage.Proofs.Code.Defects
import BytecodeCoverage.Proofs.Probe.Weave

/-!
# Woven code has no defects

Probes mention no labels.  The other instructions of woven code are the labels of windows, jumps to
labels of the code, and the instructions of the code, whose outcomes have been diverted to windows.
So if the code has no defects, neither has the woven code: windows have labels of their own, and
every label that is mentioned is placed.

**Main definitions.**
* `Unlabelled`: code that mentions no label.

**Results.**
* `Weave.mem_code`: the instructions of woven code.
* `Weave.wellFormed`: woven code of a well-formed body is well formed.
-/

namespace BytecodeCoverage

/-! ## Code without labels -/

/-- The code mentions no label. -/
def Unlabelled (code : List Instruction) : Prop :=
  ∀ insn ∈ code, insn.labels = []

namespace Instruction

variable {insn : Instruction}

theorem targets_of_labels_nil (h : insn.labels = []) : insn.targets = [] := by
  cases insn with
  | label => rfl
  | _ => exact h

/-- A switch mentions its default. -/
theorem wellShaped_of_labels_nil (h : insn.labels = []) : insn.WellShaped := by
  cases insn with
  | tableSwitch | lookupSwitch => cases h
  | _ => trivial

theorem labels_pushInt (value : Int32) : (pushInt value).labels = [] := by
  obtain ⟨op, h⟩ | ⟨op, h⟩ | h := forms_of_pushInt value <;> rw [h] <;> rfl

end Instruction

namespace Unlabelled

theorem append {a b : List Instruction} (ha : Unlabelled a) (hb : Unlabelled b) :
    Unlabelled (a ++ b) := by
  intro insn hinsn
  rcases List.mem_append.1 hinsn with hinsn | hinsn
  · exact ha insn hinsn
  · exact hb insn hinsn

theorem nil : Unlabelled [] :=
  fun _ h => absurd h List.not_mem_nil

theorem cons {insn : Instruction} {code : List Instruction} (h : insn.labels = [])
    (hcode : Unlabelled code) : Unlabelled (insn :: code) :=
  List.forall_mem_cons.2 ⟨h, hcode⟩

theorem probeCode (mode : HitMode) (array : UInt16) (slot : Nat) :
    Unlabelled (Probe.code mode array slot) := by
  refine .append (.cons rfl (.cons (Instruction.labels_pushInt _) .nil)) ?_
  cases mode
  · exact .cons rfl (.cons rfl (.cons rfl (.cons rfl (.cons rfl .nil))))
  · exact .cons rfl (.cons rfl .nil)

theorem probe (style : ProbeStyle) (array : UInt16) (site : ProbeSite) (slot : Nat) :
    Unlabelled (style.probe array site slot) := by
  refine .append (probeCode _ _ _) ?_
  cases site with
  | line number =>
      dsimp only
      split
      · exact probeCode _ _ _
      · exact nil
  | _ => exact nil

theorem item (style : ProbeStyle) (array : UInt16) (slots : MethodSlots) (site : ProbeSite) :
    Unlabelled (style.item array slots (.probe site)) := by
  simp only [ProbeStyle.item]
  split
  · exact probe _ _ _ _
  · exact nil

theorem acquire (c : Counters) : Unlabelled c.acquire := by
  unfold Counters.acquire
  split
  · exact .cons rfl .nil
  · refine .cons rfl (.cons ?_ .nil)
    cases c.mode <;> rfl
  · exact .cons rfl .nil

theorem prologue (style : ProbeStyle) (array : UInt16) : Unlabelled (style.prologue array) := by
  refine .append (.append (acquire _) (.cons rfl .nil)) ?_
  split
  · exact .cons rfl (.cons rfl (.cons rfl .nil))
  · exact nil

theorem fill (c : Counters) : Unlabelled c.fill :=
  .cons rfl (.cons rfl .nil)

end Unlabelled

/-! ## What stands before an instruction -/

namespace Window

/-- A window consists of its label and its probe, and perhaps of a jump to its destination. -/
theorem mem_chain {destination : Label} {windows : List Window} {item : Item}
    (h : item ∈ chain destination windows) :
    (∃ label, item = .insn (.label label)) ∨ (∃ site, item = .probe site) ∨
      item = .insn (.jump .goto destination) := by
  induction windows with
  | nil => cases h
  | cons w rest ih =>
      cases rest with
      | nil =>
          rcases List.mem_pair.1 h with rfl | rfl
          · exact .inl ⟨_, rfl⟩
          · exact .inr (.inl ⟨_, rfl⟩)
      | cons next rest =>
          rcases List.mem_cons.1 h with rfl | h
          · exact .inl ⟨_, rfl⟩
          · rcases List.mem_cons.1 h with rfl | h
            · exact .inr (.inl ⟨_, rfl⟩)
            · rcases List.mem_cons.1 h with rfl | h
              · exact .inr (.inr rfl)
              · exact ih h

theorem mem_before {destination : Label} {reachable : Bool} {windows : List Window} {item : Item}
    (h : item ∈ before destination reachable windows) :
    (∃ label, item = .insn (.label label)) ∨ (∃ site, item = .probe site) ∨
      item = .insn (.jump .goto destination) := by
  cases windows with
  | nil => cases h
  | cons w rest =>
      rcases List.mem_append.1 h with h | h
      · cases reachable with
        | false => cases h
        | true => exact .inr (.inr (List.mem_singleton.1 h))
      · exact mem_chain h

end Window

theorem Diverted.before_of_mem {windows : List Window} {reachable : Bool} {ds : List Diverted}
    {c : Chunk} (h : c ∈ chunks windows reachable ds) :
    ∃ windows reachable, c.before = c.diverted.before windows reachable := by
  induction ds generalizing windows reachable with
  | nil => cases h
  | cons d rest ih =>
      rcases List.mem_cons.1 h with rfl | h
      · exact ⟨_, _, rfl⟩
      · exact ih h

/-! ## Diverted instructions -/

namespace Plan

/-- The targets of a diverted switch are its own or labels of its windows. -/
theorem mem_targets_ofSwitch {site : SwitchSite} {index : Nat} {fresh : UInt32}
    {otherwise label : Label} {targets : List Label}
    (h : label ∈ Window.divertedDefault site fresh otherwise targets ::
      Window.divertedTargets fresh targets) :
    label = otherwise ∨
      label ∈ (Window.ofSwitch site index fresh otherwise targets).map Window.label := by
  rw [Window.labels_ofSwitch_eq, List.mem_append]
  rcases List.mem_cons.1 h with rfl | h
  · cases hretracted : site.defaultRetracted with
    | true => exact .inl (by simp [Window.divertedDefault, hretracted])
    | false => exact .inr (.inr List.mem_cons_self)
  · exact .inr (.inl h)

variable (plan : Plan)

/-- A diverted instruction targets what it targeted before, or one of its windows. -/
theorem targets_divert {index : Nat} {fresh : UInt32} {insn : Instruction} {label : Label}
    (h : label ∈ (plan.divert index fresh insn).1.insn.targets) :
    label ∈ insn.targets ∨ label ∈ (plan.divert index fresh insn).2.map Window.label := by
  cases insn with
  | jump op target =>
      unfold divert at h ⊢
      by_cases hkept : plan.jumps.contains index = true
      · simp only [hkept, if_true] at h ⊢
        exact .inr h
      · simp only [hkept, Bool.false_eq_true, if_false] at h
        exact .inl h
  | tableSwitch low high otherwise targets | lookupSwitch otherwise keys targets =>
      unfold divert at h ⊢
      cases hsite : plan.switches.get? index with
      | none =>
          simp only [hsite] at h
          exact .inl h
      | some site =>
          simp only [hsite] at h ⊢
          rcases mem_targets_ofSwitch h with rfl | hwindow
          · exact .inl List.mem_cons_self
          · exact .inr hwindow
  | _ => exact .inl h

theorem wellShaped_divert {index : Nat} {fresh : UInt32} {insn : Instruction}
    (h : insn.WellShaped) : (plan.divert index fresh insn).1.insn.WellShaped := by
  cases insn with
  | jump op target =>
      simp only [divert]
      split <;> trivial
  | tableSwitch low high otherwise targets | lookupSwitch otherwise keys targets =>
      unfold divert
      cases plan.switches.get? index with
      | none => exact h
      | some site => simpa [Instruction.WellShaped, Window.divertedTargets] using h
  | _ => exact h

end Plan

/-! ## Woven code -/

namespace Weave

variable {v : Weave}

/-- Before an instruction stand labels, probes, and jumps to its label. -/
theorem mem_emit_before {c : Chunk} (hc : c ∈ v.chunks) {insn : Instruction}
    (h : insn ∈ v.emit c.before) :
    (∃ site, insn ∈ v.style.item v.body.maxLocals v.slots (.probe site)) ∨
      (∃ label, insn = .label label) ∨
      ∃ placed, c.diverted.insn = .label placed ∧ insn = .jump .goto placed := by
  obtain ⟨item, hitem, h⟩ := List.mem_flatMap.1 h
  obtain ⟨windows, reachable, hbefore⟩ := Diverted.before_of_mem hc
  rw [hbefore, Diverted.before] at hitem
  split at hitem
  · rename_i placed hplaced
    rcases Window.mem_before hitem with ⟨label, rfl⟩ | ⟨site, rfl⟩ | rfl
    · exact .inr (.inl ⟨label, List.mem_singleton.1 h⟩)
    · exact .inl ⟨site, h⟩
    · exact .inr (.inr ⟨placed, hplaced, List.mem_singleton.1 h⟩)
  · cases hitem

/-- The instructions of woven code. -/
theorem mem_code {insn : Instruction} (h : insn ∈ v.code) :
    insn ∈ v.lead ∨ (∃ site, insn ∈ v.style.item v.body.maxLocals v.slots (.probe site)) ∨
      (∃ label, insn = .label label) ∨
      (∃ placed, .label placed ∈ v.body.code ∧ insn = .jump .goto placed) ∨
      ∃ i drawn old, old ∈ v.body.code ∧ insn = (v.plan.divert i drawn old).1.insn ∧
        ∀ w ∈ (v.plan.divert i drawn old).2, w ∈ v.windows := by
  rcases List.mem_append.1 h with h | h
  · exact .inl h
  right
  obtain ⟨c, hc, h⟩ := List.mem_flatMap.1 h
  obtain ⟨i, hi⟩ := List.getElem?_of_mem hc
  have hlt : i < v.body.code.length := by
    rw [← length_chunks]
    exact (List.getElem?_eq_some_iff.1 hi).1
  obtain ⟨c', drawn, hc', hdiverted, hwindows⟩ := exists_chunk (List.getElem?_eq_getElem hlt)
  obtain rfl := Option.some.inj (hi.symm.trans hc')
  obtain ⟨item, hitem, h⟩ := List.mem_flatMap.1 h
  rcases List.mem_append.1 hitem with hitem | hitem
  · rcases mem_emit_before hc (List.mem_flatMap.2 ⟨item, hitem, h⟩) with
      hprobe | hlabel | ⟨placed, hplaced, rfl⟩
    · exact .inl hprobe
    · exact .inr (.inl hlabel)
    · rw [hdiverted, Plan.insn_divert_eq_label] at hplaced
      exact .inr (.inr (.inl ⟨placed, hplaced ▸ List.getElem_mem hlt, rfl⟩))
  · rcases List.mem_cons.1 hitem with rfl | hitem
    · refine .inr (.inr (.inr ⟨i, drawn, _, List.getElem_mem hlt, ?_, hwindows⟩))
      rw [← hdiverted]
      exact List.mem_singleton.1 h
    · obtain ⟨site, -, rfl⟩ := Option.map_eq_some_iff.1 (Option.mem_toList.1 hitem)
      exact .inl ⟨site, h⟩

variable {body' : Body} (hv : v.Valid) (hcode : body'.code = v.code)

include hv hcode

/-- The labels of the code are placed in woven code. -/
theorem placed_of_old {label : Label} (h : label ∈ v.body.placed) : label ∈ body'.placed := by
  obtain ⟨pos, hpos⟩ := Body.exists_position h
  have hold := hv.drawn.below _ (Body.mem_placedIn.1 h) label List.mem_cons_self
  have hnew := position?_of_old hv hcode hold
  rw [hpos, Option.map_some] at hnew
  exact Body.mem_placedIn.2 (List.mem_of_getElem? (Body.getElem?_position hnew))

/-- The labels of windows are placed in woven code. -/
theorem placed_of_window {w : Window} (h : w ∈ v.windows) : w.label ∈ body'.placed := by
  obtain ⟨_, _, _, _, hnew, _⟩ := exists_window hv hcode h
  exact Body.mem_placedIn.2 (List.mem_of_getElem? (Body.getElem?_position hnew))

/-- Woven code of a well-formed body is well formed. -/
theorem wellFormed (hlead : Unlabelled v.lead) (hbody : v.body.WellFormed)
    (hranges : body'.tryRanges = v.body.tryRanges) : body'.WellFormed where
  nodup := by
    rw [Body.placed, hcode]
    exact nodup_code hv hbody.toSound
  targets insn hinsn label hlabel := by
    rcases mem_code (hcode ▸ hinsn) with hinsn | ⟨site, hinsn⟩ | ⟨placed, rfl⟩ |
      ⟨placed, hplaced, rfl⟩ | ⟨i, drawn, old, hold, rfl, hwindows⟩
    · rw [Instruction.targets_of_labels_nil (hlead insn hinsn)] at hlabel
      cases hlabel
    · rw [Instruction.targets_of_labels_nil (Unlabelled.item _ _ _ site insn hinsn)] at hlabel
      cases hlabel
    · cases hlabel
    · obtain rfl := List.mem_singleton.1 hlabel
      exact placed_of_old hv hcode (Body.mem_placedIn.2 hplaced)
    · rcases v.plan.targets_divert hlabel with hlabel | hlabel
      · exact placed_of_old hv hcode (hbody.targets old hold label hlabel)
      · obtain ⟨w, hw, rfl⟩ := List.mem_map.1 hlabel
        exact placed_of_window hv hcode (hwindows w hw)
  shaped insn hinsn := by
    rcases mem_code (hcode ▸ hinsn) with hinsn | ⟨site, hinsn⟩ | ⟨placed, rfl⟩ |
      ⟨placed, -, rfl⟩ | ⟨i, drawn, old, hold, rfl, -⟩
    · exact Instruction.wellShaped_of_labels_nil (hlead insn hinsn)
    · exact Instruction.wellShaped_of_labels_nil (Unlabelled.item _ _ _ site insn hinsn)
    · trivial
    · trivial
    · exact v.plan.wellShaped_divert (hbody.shaped old hold)
  bounds range hrange label hlabel :=
    placed_of_old hv hcode (hbody.bounds range (hranges ▸ hrange) label hlabel)

end Weave

end BytecodeCoverage
