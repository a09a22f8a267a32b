import BytecodeCoverage.Probe.Code
import BytecodeCoverage.Proofs.Code.Respelled
import BytecodeCoverage.Proofs.Probe.Placed

/-!
# Probes in respelled code

Both spellings of a switch have their outcomes diverted to the same windows, after which they are
two spellings of one switch again.  So the split code of both spellings is the same but for the
spelling, and the same probes are put into it.

**Main definitions.**
* `Diverted.Respelled`, `Item.Respelled`: diverted instructions and split code in two spellings.

**Results.**
* `Plan.divertAll_respelled`, `Diverted.writeOut_respelled`: splitting the branches.
* `Body.Respelled.probed`: both spellings of a body with their probes.
-/

namespace BytecodeCoverage

/-- A diverted instruction in two spellings, with the same probe. -/
structure Diverted.Respelled (d d' : Diverted) : Prop where
  insn : d.insn.Respelled d'.insn
  probe : d'.probe = d.probe

/-- An element of split code in two spellings. -/
inductive Item.Respelled : Item → Item → Prop
  | insn {insn insn' : Instruction} : insn.Respelled insn' → Respelled (.insn insn) (.insn insn')
  | probe (site : ProbeSite) : Respelled (.probe site) (.probe site)

theorem Item.Respelled.refl (item : Item) : item.Respelled item := by
  cases item with
  | insn insn => exact .insn (.same insn)
  | probe site => exact .probe site

namespace Plan

variable (plan : Plan)

/-- Both spellings are diverted alike, to the same windows. -/
theorem divert_respelled (index : Nat) (fresh : UInt32) {insn insn' : Instruction}
    (h : insn.Respelled insn') :
    (plan.divert index fresh insn).1.Respelled (plan.divert index fresh insn').1 ∧
      (plan.divert index fresh insn').2 = (plan.divert index fresh insn).2 := by
  cases h with
  | same => exact ⟨⟨.same _, rfl⟩, rfl⟩
  | @switch low high otherwise targets hshaped =>
      have hdiverted : (plan.divert index fresh
          (.tableSwitch low high otherwise targets)).1.insn.WellShaped :=
        plan.wellShaped_divert hshaped
      simp only [divert] at hdiverted ⊢
      cases hsite : plan.switches.get? index with
      | none => exact ⟨⟨.switch hshaped, rfl⟩, rfl⟩
      | some site =>
          rw [hsite] at hdiverted
          exact ⟨⟨.switch hdiverted, rfl⟩, rfl⟩

theorem divertAll_respelled {code code' : List Instruction}
    (h : List.Forall₂ Instruction.Respelled code code') (index : Nat) (fresh : UInt32) :
    List.Forall₂ Diverted.Respelled (plan.divertAll index fresh code).1
        (plan.divertAll index fresh code').1 ∧
      (plan.divertAll index fresh code').2 = (plan.divertAll index fresh code).2 := by
  induction h generalizing index fresh with
  | nil => exact ⟨.nil, rfl⟩
  | cons hinsn _ ih =>
      obtain ⟨hdiverted, hwindows⟩ := plan.divert_respelled index fresh hinsn
      obtain ⟨hrest, hmore⟩ := ih (index + 1) (fresh + (plan.divert index fresh _).2.length)
      simp only [divertAll, hwindows]
      exact ⟨.cons hdiverted hrest, by rw [hmore]⟩

end Plan

namespace Diverted

theorem items_respelled {d d' : Diverted} (h : d.Respelled d') :
    List.Forall₂ Item.Respelled d.items d'.items := by
  rw [items, items, h.probe]
  exact .cons (.insn h.insn) (List.forall₂_same.2 fun item _ => .refl item)

theorem passes_respelled {d d' : Diverted} (h : d.Respelled d') (reachable : Bool) :
    d'.passes reachable = d.passes reachable := by
  have hinsn := h.insn
  unfold passes
  generalize d.insn = insn at hinsn
  generalize d'.insn = insn' at hinsn
  cases hinsn <;> rfl

/-- The same windows are written out before the same labels. -/
theorem writeOut_respelled {ds ds' : List Diverted} (h : List.Forall₂ Diverted.Respelled ds ds')
    (windows : List Window) (reachable : Bool) :
    List.Forall₂ Item.Respelled (writeOut windows reachable ds)
      (writeOut windows reachable ds') := by
  induction h generalizing windows reachable with
  | nil => exact .nil
  | @cons d d' rest rest' hd _ ih =>
      have hitems := items_respelled hd
      have hlabel := hd.insn.eq_label_iff
      by_cases hplaced : ∃ placed, d.insn = .label placed
      · obtain ⟨placed, hinsn⟩ := hplaced
        have hinsn' := (hlabel placed).2 hinsn
        simp only [writeOut, hinsn, hinsn', passes_respelled hd]
        exact List.rel_append (List.forall₂_same.2 fun item _ => .refl item)
          (List.rel_append hitems (ih _ _))
      · have hother : ∀ placed, d.insn ≠ .label placed := fun placed heq => hplaced ⟨placed, heq⟩
        have hother' : ∀ placed, d'.insn ≠ .label placed := fun placed heq =>
          hother placed ((hlabel placed).1 heq)
        rw [writeOut_of_other hother, writeOut_of_other hother', passes_respelled hd]
        exact List.rel_append hitems (ih _ _)

end Diverted

/-! ## Bodies -/

namespace Body.Respelled

variable {body body' : Body}

/-- Both spellings of a body are split at the same places. -/
theorem items_split (h : body.Respelled body') (scan : Scan) :
    List.Forall₂ Item.Respelled (body.split scan).items (body'.split scan).items := by
  obtain ⟨hdiverted, hwindows⟩ :=
    (Plan.ofScan scan).divertAll_respelled h.code 0 body.nextLabel
  simp only [split, h.nextLabel, hwindows]
  exact Diverted.writeOut_respelled hdiverted _ _

/-- Both spellings of a body get the same probes. -/
theorem probed (h : body.Respelled body') (scan : Scan) (slots : MethodSlots)
    (style : ProbeStyle) :
    ((body.split scan).fill slots style).Respelled ((body'.split scan).fill slots style) := by
  have hitem (array : UInt16) {item item' : Item} (hitem : item.Respelled item') :
      List.Forall₂ Instruction.Respelled (style.item array slots item)
        (style.item array slots item') := by
    cases hitem with
    | insn hinsn => exact .cons hinsn .nil
    | probe => exact List.forall₂_same.2 fun insn _ => .same insn
  have hitems (array : UInt16) {items items' : List Item}
      (hitems : List.Forall₂ Item.Respelled items items') :
      List.Forall₂ Instruction.Respelled (items.flatMap (style.item array slots))
        (items'.flatMap (style.item array slots)) := by
    induction hitems with
    | nil => exact .nil
    | cons hfirst _ ih =>
        rw [List.flatMap_cons, List.flatMap_cons]
        exact List.rel_append (hitem array hfirst) ih
  have hlocals : (body'.split scan).maxLocals = (body.split scan).maxLocals := h.maxLocals
  have hstack : (body'.split scan).maxStack = (body.split scan).maxStack := h.maxStack
  have hranges : (body'.split scan).tryRanges = (body.split scan).tryRanges := h.tryRanges
  simp only [SplitBody.fill, hlocals, hstack, hranges]
  refine .of_parts (List.rel_append ?_ (hitems _ (h.items_split scan))) _ _ _
  exact List.forall₂_same.2 fun insn _ => .same insn

end Body.Respelled

end BytecodeCoverage
