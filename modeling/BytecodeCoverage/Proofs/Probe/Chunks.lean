import BytecodeCoverage.Probe.Windows
import BytecodeCoverage.Proofs.Code.Labels
import BytecodeCoverage.Proofs.Code.Positions

/-!
# Split code, instruction by instruction

Split code is a sequence of chunks, one for each instruction of the code: the windows that stand
before the instruction, the instruction with its outcomes diverted, and the probe behind it.  A
chunk also says whether control can arrive at it by falling through.

The windows before a label are all windows that lead to it, provided that the label is placed
once.

**Main definitions.**
* `Chunk`, `Diverted.chunks`: split code by instructions.

**Results.**
* `Diverted.writeOut_eq_chunks`: split code is the sequence of its chunks.
* `Diverted.before_of_label`: the windows before a label.
-/

namespace BytecodeCoverage

/-! ## Windows -/

namespace Window

theorem labels_ofTargets (index pos : Nat) (fresh : UInt32) (targets : List Label) :
    (ofTargets index pos fresh targets).map label = Label.successive fresh targets.length := by
  induction targets generalizing pos fresh with
  | nil => rfl
  | cons target rest ih =>
      rw [ofTargets, List.map_cons, ih, List.length_cons, Label.successive_succ]

/-- The labels of a switch's windows: those of its targets, and then that of its default. -/
theorem labels_ofSwitch_eq (site : SwitchSite) (index : Nat) (fresh : UInt32) (otherwise : Label)
    (targets : List Label) :
    (ofSwitch site index fresh otherwise targets).map label =
      divertedTargets fresh targets ++
        if site.defaultRetracted then [] else [divertedDefault site fresh otherwise targets] := by
  rw [ofSwitch, List.map_append, labels_ofTargets, divertedTargets, divertedDefault]
  cases site.defaultRetracted <;> rfl

theorem labels_ofSwitch (site : SwitchSite) (index : Nat) (fresh : UInt32) (otherwise : Label)
    (targets : List Label) :
    (ofSwitch site index fresh otherwise targets).map label =
      Label.successive fresh (ofSwitch site index fresh otherwise targets).length := by
  unfold ofSwitch
  cases site.defaultRetracted with
  | true => simp [labels_ofTargets, length_ofTargets]
  | false => simp [labels_ofTargets, length_ofTargets, Label.successive_concat]

/-- A switch has no more windows than outcomes. -/
theorem length_ofSwitch_le (site : SwitchSite) (index : Nat) (fresh : UInt32) (otherwise : Label)
    (targets : List Label) :
    (ofSwitch site index fresh otherwise targets).length ≤ targets.length + 1 := by
  unfold ofSwitch
  cases site.defaultRetracted <;> simp [length_ofTargets]

theorem destination_ofTargets {index pos : Nat} {fresh : UInt32} {targets : List Label} {w : Window}
    (h : w ∈ ofTargets index pos fresh targets) : w.destination ∈ targets := by
  induction targets generalizing pos fresh with
  | nil => simp [ofTargets] at h
  | cons target rest ih =>
      rcases List.mem_cons.1 h with rfl | h
      · exact List.mem_cons_self
      · exact List.mem_cons_of_mem _ (ih h)

theorem destination_ofSwitch {site : SwitchSite} {index : Nat} {fresh : UInt32} {otherwise : Label}
    {targets : List Label} {w : Window} (h : w ∈ ofSwitch site index fresh otherwise targets) :
    w.destination ∈ otherwise :: targets := by
  rcases List.mem_append.1 h with h | h
  · exact List.mem_cons_of_mem _ (destination_ofTargets h)
  · split at h
    · cases h
    · rw [List.mem_singleton.1 h]
      exact List.mem_cons_self

/-- A window ends before what comes next, or jumps to its destination. -/
theorem exists_chain (destination : Label) {windows : List Window} {w : Window}
    (h : w ∈ windows) :
    ∃ pre post,
      chain destination windows = pre ++ .insn (.label w.label) :: .probe w.site :: post ∧
        (post = [] ∨ ∃ more, post = .insn (.jump .goto destination) :: more) := by
  induction windows with
  | nil => cases h
  | cons other rest ih =>
      cases rest with
      | nil =>
          obtain rfl := List.mem_singleton.1 h
          exact ⟨[], [], rfl, .inl rfl⟩
      | cons next rest =>
          rcases List.mem_cons.1 h with rfl | h
          · exact ⟨[], _, rfl, .inr ⟨_, rfl⟩⟩
          · obtain ⟨pre, post, hchain, hpost⟩ := ih h
            refine ⟨.insn (.label other.label) :: .probe other.site ::
              .insn (.jump .goto destination) :: pre, post, ?_, hpost⟩
            rw [List.cons_append, List.cons_append, List.cons_append, ← hchain]
            rfl

/-- What stands before a label is nothing, or begins with a jump to the label if the label is
reached by falling through. -/
theorem before_cases (destination : Label) (windows : List Window) :
    before destination true windows = [] ∨
      ∃ more, before destination true windows = .insn (.jump .goto destination) :: more := by
  cases windows with
  | nil => exact .inl rfl
  | cons w rest => exact .inr ⟨_, rfl⟩

/-- A window stands before its destination. -/
theorem exists_before (destination : Label) (reachable : Bool) {windows : List Window}
    {w : Window} (h : w ∈ windows) :
    ∃ pre post,
      before destination reachable windows =
          pre ++ .insn (.label w.label) :: .probe w.site :: post ∧
        (post = [] ∨ ∃ more, post = .insn (.jump .goto destination) :: more) := by
  obtain ⟨pre, post, hchain, hpost⟩ := exists_chain destination h
  cases windows with
  | nil => cases h
  | cons other rest =>
      refine ⟨(if reachable then [.insn (.jump .goto destination)] else []) ++ pre, post, ?_, hpost⟩
      rw [before, hchain, List.append_assoc]

end Window

/-! ## Diverted code -/

namespace Plan

variable (plan : Plan)

/-- The labels of an instruction's windows are drawn one after the other. -/
theorem labels_divert (index : Nat) (fresh : UInt32) (insn : Instruction) :
    (plan.divert index fresh insn).2.map Window.label =
      Label.successive fresh (plan.divert index fresh insn).2.length := by
  cases insn with
  | jump op target =>
      simp only [divert]
      split <;> simp [Label.successive]
  | tableSwitch low high otherwise targets | lookupSwitch otherwise keys targets =>
      unfold divert
      cases plan.switches.get? index with
      | none => rfl
      | some site => exact Window.labels_ofSwitch site index fresh otherwise targets
  | _ => rfl

/-- An instruction has no more windows than outcomes. -/
theorem length_divert_le (index : Nat) (fresh : UInt32) (insn : Instruction) :
    (plan.divert index fresh insn).2.length ≤ insn.targets.length := by
  cases insn with
  | jump op target =>
      simp only [divert]
      split <;> simp [Instruction.targets]
  | tableSwitch low high otherwise targets | lookupSwitch otherwise keys targets =>
      unfold divert
      cases plan.switches.get? index with
      | none => exact Nat.zero_le _
      | some site => exact Window.length_ofSwitch_le site index fresh otherwise targets
  | _ => exact Nat.zero_le _

/-- A window leads where an outcome of its instruction led. -/
theorem destination_divert {index : Nat} {fresh : UInt32} {insn : Instruction} {w : Window}
    (h : w ∈ (plan.divert index fresh insn).2) : w.destination ∈ insn.targets := by
  cases insn with
  | jump op target =>
      simp only [divert] at h
      split at h
      · rw [List.mem_singleton.1 h]
        exact List.mem_cons_self
      · cases h
  | tableSwitch low high otherwise targets =>
      unfold divert at h
      cases hsite : plan.switches.get? index with
      | none => simp [hsite] at h
      | some site =>
          simp only [hsite] at h
          exact Window.destination_ofSwitch h
  | lookupSwitch otherwise keys targets =>
      unfold divert at h
      cases hsite : plan.switches.get? index with
      | none => simp [hsite] at h
      | some site =>
          simp only [hsite] at h
          exact Window.destination_ofSwitch h
  | _ => simp [divert] at h

/-- Placed labels stay, and no label is placed in their stead. -/
theorem insn_divert_eq_label {index : Nat} {fresh : UInt32} {insn : Instruction} {placed : Label} :
    (plan.divert index fresh insn).1.insn = .label placed ↔ insn = .label placed := by
  cases insn with
  | jump op target =>
      simp only [divert]
      split <;> simp
  | tableSwitch low high otherwise targets | lookupSwitch otherwise keys targets =>
      unfold divert
      cases plan.switches.get? index <;> simp
  | _ => simp [divert]

/-- The labels of all windows are drawn one after the other. -/
theorem labels_divertAll (index : Nat) (fresh : UInt32) (code : List Instruction) :
    (plan.divertAll index fresh code).2.map Window.label =
      Label.successive fresh (plan.divertAll index fresh code).2.length := by
  induction code generalizing index fresh with
  | nil => rfl
  | cons insn rest ih =>
      simp only [divertAll, List.map_append, labels_divert, ih, List.length_append]
      rw [Label.successive_add]

/-- There are no more windows than outcomes. -/
theorem length_divertAll_le (index : Nat) (fresh : UInt32) (code : List Instruction) :
    (plan.divertAll index fresh code).2.length ≤ (code.flatMap Instruction.targets).length := by
  induction code generalizing index fresh with
  | nil => exact Nat.le_refl _
  | cons insn rest ih =>
      simp only [divertAll, List.length_append, List.flatMap_cons]
      exact Nat.add_le_add (plan.length_divert_le index fresh insn) (ih _ _)

/-- Every instruction is diverted on its own, with labels drawn for its windows. -/
theorem exists_divert (index : Nat) (fresh : UInt32) {i : Nat} {code : List Instruction}
    {insn : Instruction} (h : code[i]? = some insn) :
    ∃ drawn, (plan.divertAll index fresh code).1[i]? =
        some (plan.divert (index + i) drawn insn).1 ∧
      ∀ w ∈ (plan.divert (index + i) drawn insn).2, w ∈ (plan.divertAll index fresh code).2 := by
  induction code generalizing index fresh i with
  | nil => simp at h
  | cons other rest ih =>
      cases i with
      | zero =>
          obtain rfl : other = insn := by simpa using h
          exact ⟨fresh, by simp [divertAll], fun w hw => List.mem_append_left _ hw⟩
      | succ i =>
          obtain ⟨drawn, hinsn, hwindows⟩ :=
            ih (index + 1) (fresh + (plan.divert index fresh other).2.length) (by simpa using h)
          refine ⟨drawn, ?_, fun w hw => ?_⟩
          · simpa [divertAll, Nat.add_assoc, Nat.add_comm 1] using hinsn
          · refine List.mem_append_right _ (hwindows w ?_)
            simpa [Nat.add_assoc, Nat.add_comm 1] using hw

/-- A window leads where some outcome of the code led. -/
theorem destination_divertAll {index : Nat} {fresh : UInt32} {code : List Instruction} {w : Window}
    (h : w ∈ (plan.divertAll index fresh code).2) :
    ∃ insn ∈ code, w.destination ∈ insn.targets := by
  induction code generalizing index fresh with
  | nil => simp [divertAll] at h
  | cons insn rest ih =>
      rcases List.mem_append.1 h with h | h
      · exact ⟨insn, List.mem_cons_self, plan.destination_divert h⟩
      · obtain ⟨other, hother, htarget⟩ := ih h
        exact ⟨other, List.mem_cons_of_mem _ hother, htarget⟩

/-- Diverted code places the labels of the code. -/
theorem placedIn_divertAll (index : Nat) (fresh : UInt32) (code : List Instruction) :
    Body.placedIn ((plan.divertAll index fresh code).1.map Diverted.insn) =
      Body.placedIn code := by
  induction code generalizing index fresh with
  | nil => rfl
  | cons insn rest ih =>
      have hrest := ih (index + 1) (fresh + (plan.divert index fresh insn).2.length)
      by_cases hlabel : ∃ placed, insn = .label placed
      · obtain ⟨placed, rfl⟩ := hlabel
        simpa [divertAll, divert, Body.placedIn] using hrest
      · have hinsn : ∀ placed, insn ≠ .label placed := fun placed h => hlabel ⟨placed, h⟩
        have hdiverted : ∀ placed, (plan.divert index fresh insn).1.insn ≠ .label placed :=
          fun placed h => hinsn placed ((plan.insn_divert_eq_label).1 h)
        simp only [divertAll, List.map_cons]
        rw [Body.placedIn.eq_3 _ _ hdiverted, Body.placedIn.eq_3 _ _ hinsn, hrest]

/-- Labels are found at the same place in diverted code. -/
theorem go_divertAll (label : Label) (pos index : Nat) (fresh : UInt32)
    (code : List Instruction) :
    Body.position?.go label pos ((plan.divertAll index fresh code).1.map Diverted.insn) =
      Body.position?.go label pos code := by
  induction code generalizing pos index fresh with
  | nil => rfl
  | cons insn rest ih =>
      simp only [divertAll, List.map_cons, Body.position?.go, ih]
      congr 1
      by_cases hlabel : ∃ placed, insn = .label placed
      · obtain ⟨placed, rfl⟩ := hlabel
        rfl
      · have hinsn : ∀ placed, insn ≠ .label placed := fun placed h => hlabel ⟨placed, h⟩
        have hdiverted : ∀ placed, (plan.divert index fresh insn).1.insn ≠ .label placed :=
          fun placed h => hinsn placed ((plan.insn_divert_eq_label).1 h)
        split
        · rename_i placed h
          exact absurd h (hdiverted placed)
        · rfl

end Plan

/-! ## Chunks -/

/-- What one instruction becomes in split code. -/
structure Chunk where
  /-- Whether code before the chunk can fall through to it. -/
  reached : Bool
  /-- The windows before the instruction. -/
  before : List Item
  diverted : Diverted

/-- The elements of a chunk. -/
def Chunk.items (c : Chunk) : List Item :=
  c.before ++ c.diverted.items

namespace Diverted

/-- What stands before an instruction. -/
def before (windows : List Window) (reachable : Bool) (d : Diverted) : List Item :=
  match d.insn with
  | .label placed =>
      Window.before placed reachable (windows.filter fun w => w.destination = placed)
  | _ => []

/-- The windows that have not been written out behind an instruction. -/
def remaining (windows : List Window) (d : Diverted) : List Window :=
  match d.insn with
  | .label placed => windows.filter fun w => w.destination ≠ placed
  | _ => windows

/-- Before an instruction that is no label, nothing is written out. -/
theorem writeOut_of_other {windows : List Window} {reachable : Bool} {d : Diverted}
    {rest : List Diverted} (hlabel : ∀ placed, d.insn ≠ .label placed) :
    writeOut windows reachable (d :: rest) =
      d.items ++ writeOut windows (d.passes reachable) rest := by
  rw [writeOut]
  split
  · rename_i placed heq
    exact absurd heq (hlabel placed)
  · rfl

/-- The chunks of split code. -/
def chunks : (windows : List Window) → (reachable : Bool) → List Diverted → List Chunk
  | _, _, [] => []
  | windows, reachable, d :: rest =>
      { reached := reachable, before := d.before windows reachable, diverted := d } ::
        chunks (d.remaining windows) (d.passes reachable) rest

theorem writeOut_eq_chunks (windows : List Window) (reachable : Bool) (ds : List Diverted) :
    writeOut windows reachable ds = (chunks windows reachable ds).flatMap Chunk.items := by
  induction ds generalizing windows reachable with
  | nil => rfl
  | cons d rest ih =>
      obtain ⟨insn, probe⟩ := d
      cases insn <;> simp [writeOut, chunks, Chunk.items, before, remaining, ih]

theorem diverted_chunks (windows : List Window) (reachable : Bool) (ds : List Diverted) :
    (chunks windows reachable ds).map Chunk.diverted = ds := by
  induction ds generalizing windows reachable with
  | nil => rfl
  | cons d rest ih => simp [chunks, ih]

/-- The first chunk is reached if the code is. -/
theorem reached_zero {windows : List Window} {reachable : Bool} {ds : List Diverted} {c : Chunk}
    (h : (chunks windows reachable ds)[0]? = some c) : c.reached = reachable := by
  cases ds with
  | nil => simp [chunks] at h
  | cons d rest =>
      simp only [chunks, List.getElem?_cons_zero, Option.some.injEq] at h
      simp [← h]

/-- Every other chunk is reached if the one before it lets control through. -/
theorem reached_succ {windows : List Window} {reachable : Bool} {ds : List Diverted} {i : Nat}
    {c next : Chunk} (h : (chunks windows reachable ds)[i]? = some c)
    (hnext : (chunks windows reachable ds)[i + 1]? = some next) :
    next.reached = c.diverted.passes c.reached := by
  induction ds generalizing windows reachable i with
  | nil => simp [chunks] at h
  | cons d rest ih =>
      cases i with
      | zero =>
          simp only [chunks, List.getElem?_cons_zero, Option.some.injEq, Nat.zero_add,
            List.getElem?_cons_succ] at h hnext
          rw [reached_zero hnext, ← h]
      | succ i =>
          simp only [chunks, List.getElem?_cons_succ] at h hnext
          exact ih h hnext

/-- Nothing stands before an instruction that is no label. -/
theorem before_of_other {windows : List Window} {reachable : Bool} {ds : List Diverted} {i : Nat}
    {c : Chunk} (h : (chunks windows reachable ds)[i]? = some c)
    (hinsn : ∀ placed, c.diverted.insn ≠ .label placed) : c.before = [] := by
  induction ds generalizing windows reachable i with
  | nil => simp [chunks] at h
  | cons d rest ih =>
      cases i with
      | zero =>
          simp only [chunks, List.getElem?_cons_zero, Option.some.injEq] at h
          subst h
          simp only [before]
      | succ i => exact ih (by simpa [chunks] using h)

/-- Without windows nothing stands before any instruction. -/
theorem before_of_no_windows {reachable : Bool} {ds : List Diverted} {c : Chunk}
    (h : c ∈ chunks [] reachable ds) : c.before = [] := by
  induction ds generalizing reachable with
  | nil => simp [chunks] at h
  | cons d rest ih =>
      obtain ⟨insn, probe⟩ := d
      rcases List.mem_cons.1 h with rfl | h
      · cases insn <;> rfl
      · cases insn <;> exact ih h

/-- All windows of a label that is placed once stand before it. -/
theorem before_of_label {windows : List Window} {reachable : Bool} {ds : List Diverted} {i : Nat}
    {c : Chunk} {placed : Label} (h : (chunks windows reachable ds)[i]? = some c)
    (hinsn : c.diverted.insn = .label placed)
    (hnodup : (Body.placedIn (ds.map Diverted.insn)).Nodup) :
    c.before =
      Window.before placed c.reached (windows.filter fun w => w.destination = placed) := by
  induction ds generalizing windows reachable i with
  | nil => simp [chunks] at h
  | cons d rest ih =>
      cases i with
      | zero =>
          simp only [chunks, List.getElem?_cons_zero, Option.some.injEq] at h
          subst h
          simp only at hinsn
          simp [before, hinsn]
      | succ i =>
          simp only [chunks, List.getElem?_cons_succ] at h
          have hlater : .label placed ∈ rest.map Diverted.insn := by
            rw [← hinsn, ← diverted_chunks (d.remaining windows) (d.passes reachable) rest]
            exact List.mem_map_of_mem (List.mem_map_of_mem (List.mem_of_getElem? h))
          obtain ⟨insn, probe⟩ := d
          cases insn with
          | label other =>
              simp only [List.map_cons, Body.placedIn, List.nodup_cons, Body.mem_placedIn] at hnodup
              have hne : placed ≠ other := fun heq => hnodup.1 (heq ▸ hlater)
              rw [ih h hnodup.2]
              congr 1
              simp only [remaining, List.filter_filter]
              refine List.filter_congr fun w _ => ?_
              by_cases hw : w.destination = placed <;> simp [hw, hne]
          | _ => exact ih h (by simpa [Body.placedIn] using hnodup)

end Diverted

end BytecodeCoverage
