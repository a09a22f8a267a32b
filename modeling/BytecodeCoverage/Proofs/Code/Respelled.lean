import Mathlib.Data.List.Forall2
import BytecodeCoverage.Machine.Execute
import BytecodeCoverage.Proofs.Code.Defects

/-!
# Switches spelled in two ways

A table switch does what the lookup switch with the same keys, targets and default does.  Code is
respelled by writing some of its table switches as lookup switches.  Nothing that is asked of the
code apart from executing it tells the two spellings apart: they have the same labels, keys and
targets, so one of them has a defect exactly if the other one has.

**Main definitions.**
* `Instruction.Respelled`, `Body.Respelled`, `ClassFile.Respelled`: code in another spelling.

**Results.**
* `Machine.lookupTarget_keyRange`: both spellings select the same target.
* `Body.Respelled.wellFormed_iff`: both spellings are well formed, or neither.
-/

namespace BytecodeCoverage

/-! ## The keys of a table switch -/

section Keys

variable {low high : Int32} {otherwise : Label} {targets : List Label}

/-- The number of a key, which is in range. -/
theorem toInt_key (low high : Int32) {i : Nat} (hi : (i : Int) < high.toInt - low.toInt + 1) :
    (Int32.ofInt (low.toInt + i)).toInt = low.toInt + i := by
  have hlow := low.le_toInt
  have hhigh := high.toInt_lt
  exact Int32.toInt_ofInt_of_le (by omega) (by omega)

theorem ascends_of_pairwise {keys : List Int32} (h : keys.Pairwise (· < ·)) :
    Body.ascends keys = true := by
  induction keys with
  | nil => rfl
  | cons a rest ih =>
      obtain ⟨hfirst, hrest⟩ := List.pairwise_cons.1 h
      cases rest with
      | nil => rfl
      | cons b rest => simpa [Body.ascends, hfirst b List.mem_cons_self] using ih hrest

/-- The keys of a table switch ascend. -/
theorem ascends_keyRange (low high : Int32) : Body.ascends (keyRange low high) = true := by
  refine ascends_of_pairwise ?_
  rw [keyRange, List.pairwise_map]
  refine List.pairwise_lt_range.imp_of_mem fun {i j} hi hj hlt => ?_
  rw [List.mem_range] at hi hj
  rw [Int32.lt_iff_toInt_lt, toInt_key low high (by omega), toInt_key low high (by omega)]
  omega

namespace Machine

/-- Looking a key up among ascending numbers. -/
theorem lookupTarget_range' (key : Int32) (start : Int) (s : Nat) (targets : List Label)
    (hkeys : ∀ i, s ≤ i → i < s + targets.length → (Int32.ofInt (start + i)).toInt = start + i) :
    lookupTarget otherwise key
        ((List.range' s targets.length).map fun (i : Nat) => Int32.ofInt (start + (i : Int)))
        targets =
      if key.toInt < start + s then otherwise
      else targets[(key.toInt - (start + s)).toNat]?.getD otherwise := by
  induction targets generalizing s with
  | nil => simp [lookupTarget]
  | cons target rest ih =>
      have hfirst := hkeys s (Nat.le_refl s) (by simp)
      have hlater := ih (s + 1) fun i hi hlt => hkeys i (by omega) (by simp; omega)
      rw [List.length_cons, List.range'_succ, List.map_cons, lookupTarget, hlater]
      by_cases hsame : Int32.ofInt (start + s) = key
      · rw [if_pos hsame, ← hsame, hfirst]
        simp
      · have hne : key.toInt ≠ start + s := fun heq =>
          hsame (Int32.toInt_inj.1 (hfirst.trans heq.symm))
        rw [if_neg hsame]
        by_cases hlt : key.toInt < start + s
        · rw [if_pos hlt, if_pos (by push_cast; omega)]
        · rw [if_neg hlt, if_neg (by push_cast; omega)]
          have hsucc : (key.toInt - (start + s)).toNat =
              (key.toInt - (start + (s + 1 : Nat))).toNat + 1 := by
            push_cast
            omega
          rw [hsucc, List.getElem?_cons_succ]

/-- Both spellings of a switch select the same target. -/
theorem lookupTarget_keyRange
    (h : (Instruction.tableSwitch low high otherwise targets).WellShaped) (key : Int32) :
    lookupTarget otherwise key (keyRange low high) targets =
      tableTarget low otherwise targets key := by
  obtain ⟨-, hcount⟩ := h
  have hlength : (high.toInt - low.toInt + 1).toNat = targets.length := by omega
  rw [keyRange, hlength, List.range_eq_range',
    lookupTarget_range' key low.toInt 0 targets fun i _ hi => toInt_key low high (by omega)]
  simp [tableTarget, Int32.lt_iff_toInt_lt]

end Machine

end Keys

/-! ## Instructions -/

/-- The same instruction, or a table switch and the lookup switch with the same keys. -/
inductive Instruction.Respelled : Instruction → Instruction → Prop
  | same (insn : Instruction) : Respelled insn insn
  | switch {low high : Int32} {otherwise : Label} {targets : List Label} :
      (Instruction.tableSwitch low high otherwise targets).WellShaped →
      Respelled (.tableSwitch low high otherwise targets)
        (.lookupSwitch otherwise (keyRange low high) targets)

namespace Instruction.Respelled

variable {insn insn' : Instruction}

theorem targets_eq (h : insn.Respelled insn') : insn'.targets = insn.targets := by
  cases h <;> rfl

theorem labels_eq (h : insn.Respelled insn') : insn'.labels = insn.labels := by
  cases h <;> rfl

/-- Labels stay where they are. -/
theorem eq_label_iff (h : insn.Respelled insn') (placed : Label) :
    insn' = .label placed ↔ insn = .label placed := by
  cases h with
  | same => exact Iff.rfl
  | switch => exact ⟨nofun, nofun⟩

theorem wellShaped_iff (h : insn.Respelled insn') : insn'.WellShaped ↔ insn.WellShaped := by
  cases h with
  | same => exact Iff.rfl
  | switch hshaped =>
      refine iff_of_true ⟨?_, ascends_keyRange _ _⟩ hshaped
      exact (WellShaped.length_targets hshaped rfl).symm

/-- Both spellings do the same. -/
theorem execute_eq (h : insn.Respelled insn') (f : Machine.Frame) (w : Machine.World) :
    insn'.execute f w = insn.execute f w := by
  cases h with
  | same => rfl
  | switch hshaped => simp only [execute, Machine.lookupTarget_keyRange hshaped]

end Instruction.Respelled

/-! ## Bodies -/

/-- A body, some table switches being spelled as lookup switches. -/
structure Body.Respelled (body body' : Body) : Prop where
  code : List.Forall₂ Instruction.Respelled body.code body'.code
  tryRanges : body'.tryRanges = body.tryRanges
  maxStack : body'.maxStack = body.maxStack
  maxLocals : body'.maxLocals = body.maxLocals
  nextLabel : body'.nextLabel = body.nextLabel

namespace Body

variable {code code' : List Instruction} {body body' : Body}

theorem placedIn_respelled (h : List.Forall₂ Instruction.Respelled code code') :
    placedIn code' = placedIn code := by
  induction h with
  | nil => rfl
  | @cons insn _ _ _ hinsn _ ih =>
      cases hinsn with
      | same => cases insn <;> simp [placedIn, ih]
      | switch => exact ih

theorem labels_respelled (h : List.Forall₂ Instruction.Respelled code code') :
    code'.flatMap Instruction.labels = code.flatMap Instruction.labels := by
  induction h with
  | nil => rfl
  | cons hinsn _ ih => rw [List.flatMap_cons, List.flatMap_cons, hinsn.labels_eq, ih]

theorem go_respelled (h : List.Forall₂ Instruction.Respelled code code') (label : Label) (i : Nat) :
    position?.go label i code' = position?.go label i code := by
  induction h generalizing i with
  | nil => rfl
  | cons hinsn _ ih =>
      unfold position?.go
      rw [ih]
      cases hinsn <;> rfl

/-- Bodies made from respelled code. -/
theorem Respelled.of_parts (h : List.Forall₂ Instruction.Respelled code code')
    (tryRanges : List TryRange) (maxStack maxLocals : UInt16) :
    (ofParts code tryRanges maxStack maxLocals).Respelled
      (ofParts code' tryRanges maxStack maxLocals) where
  code := h
  tryRanges := rfl
  maxStack := rfl
  maxLocals := rfl
  nextLabel := by rw [ofParts, ofParts, labels_respelled h]

namespace Respelled

theorem refl (body : Body) : body.Respelled body where
  code := List.forall₂_same.2 fun insn _ => .same insn
  tryRanges := rfl
  maxStack := rfl
  maxLocals := rfl
  nextLabel := rfl

theorem position?_eq (h : body.Respelled body') (label : Label) :
    body'.position? label = body.position? label :=
  go_respelled h.code label 0

theorem placed_eq (h : body.Respelled body') : body'.placed = body.placed :=
  placedIn_respelled h.code

/-- Both spellings of a body are well formed, or neither is. -/
theorem wellFormed_iff (h : body.Respelled body') : body'.WellFormed ↔ body.WellFormed := by
  have hinsns {p : Instruction → Prop} (hp : ∀ {a a'}, a.Respelled a' → (p a' ↔ p a)) :
      (∀ insn ∈ body'.code, p insn) ↔ ∀ insn ∈ body.code, p insn := by
    have hcode := h.code
    generalize body.code = code at hcode
    generalize body'.code = code' at hcode
    induction hcode with
    | nil => simp
    | cons hinsn _ ih => simp only [List.forall_mem_cons, hp hinsn, ih]
  have htargets := hinsns (p := fun insn => ∀ label ∈ insn.targets, label ∈ body.placed)
    fun hinsn => by rw [hinsn.targets_eq]
  have hshaped := hinsns fun hinsn => hinsn.wellShaped_iff
  constructor
  · rintro ⟨⟨hnodup, htargets'⟩, hshaped', hbounds⟩
    rw [h.placed_eq] at hnodup htargets' hbounds
    exact ⟨⟨hnodup, htargets.1 htargets'⟩, hshaped.1 hshaped', h.tryRanges ▸ hbounds⟩
  · rintro ⟨⟨hnodup, htargets'⟩, hshaped', hbounds⟩
    rw [← h.placed_eq] at hnodup
    refine ⟨⟨hnodup, ?_⟩, hshaped.2 hshaped', ?_⟩
    · rw [h.placed_eq]
      exact htargets.2 htargets'
    · rw [h.placed_eq, h.tryRanges]
      exact hbounds

end Respelled

end Body

/-! ## Classes -/

/-- A method whose code is respelled. -/
structure Method.Respelled (method method' : Method) : Prop where
  name : method'.name = method.name
  descriptor : method'.descriptor = method.descriptor
  access : method'.access = method.access
  body : Option.Rel Body.Respelled method.body method'.body

/-- A class whose methods are respelled. -/
structure ClassFile.Respelled (cls cls' : ClassFile) : Prop where
  methods : List.Forall₂ Method.Respelled cls.methods cls'.methods
  same : cls' = { cls with methods := cls'.methods }

theorem Method.Respelled.refl (method : Method) : method.Respelled method where
  name := rfl
  descriptor := rfl
  access := rfl
  body := by
    cases method.body with
    | none => exact .none
    | some body => exact .some (.refl body)

namespace ClassFile.Respelled

variable {cls cls' : ClassFile}

theorem name_eq (h : cls.Respelled cls') : cls'.name = cls.name := by rw [h.same]

/-- Methods are found under the same names. -/
theorem method?_rel (h : cls.Respelled cls') (name descriptor : String) :
    Option.Rel Method.Respelled (cls.method? name descriptor) (cls'.method? name descriptor) := by
  have hmethods := h.methods
  unfold method?
  generalize cls.methods = methods at hmethods
  generalize cls'.methods = methods' at hmethods
  induction hmethods with
  | nil => exact .none
  | @cons m m' _ _ hm _ ih =>
      rw [List.find?_cons, List.find?_cons, hm.name, hm.descriptor]
      cases m.name == name && m.descriptor == descriptor with
      | true => exact .some hm
      | false => exact ih

end ClassFile.Respelled

end BytecodeCoverage
