import BytecodeCoverage.Proofs.Code.Labels
import BytecodeCoverage.Proofs.Machine.Events
import BytecodeCoverage.Proofs.Machine.Unaware
import BytecodeCoverage.Probe.Windows
import Mathlib.Tactic.SplitIfs

/-!
# Executing diverted instructions

A diverted instruction does what the instruction does, except that it leads to the window of its
outcome where the outcome has one.  The site of that window is the one that counts what the
instruction did; if it falls through, the probe behind it counts.

**Main definitions.**
* `Plan.site?`: the site that counts a deed.

**Results.**
* `Instruction.execute_fits`: how each shape of instruction may go on.
* `Plan.execute_divert`: a diverted instruction leads to the windows of its outcomes.
* `Plan.probe_divert`: the probe behind an instruction that falls through.
-/

namespace BytecodeCoverage

namespace Machine

/-! ## Choices of switches -/

/-- The label chosen by a switch that selects the target at a place, or the default. -/
def chosen (otherwise : Label) (targets : List Label) : Option Nat → Label
  | some pos => targets[pos]?.getD otherwise
  | none => otherwise

theorem tableTarget_eq_chosen (low : Int32) (otherwise : Label) (targets : List Label)
    (key : Int32) : tableTarget low otherwise targets key =
      chosen otherwise targets (tableCase? low targets.length key) := by
  unfold tableTarget tableCase?
  split
  · rfl
  · dsimp only
    split
    · rfl
    · rename_i hle
      rw [List.getElem?_eq_none (by omega)]
      rfl

theorem tableCase?_lt {low : Int32} {count : Nat} {key : Int32} {pos : Nat}
    (h : tableCase? low count key = some pos) : pos < count := by
  unfold tableCase? at h
  split at h
  · cases h
  · dsimp only at h
    split at h
    · cases h
      assumption
    · cases h

theorem lookupTarget_eq_chosen (otherwise : Label) (key : Int32) (keys : List Int32)
    (targets : List Label) : lookupTarget otherwise key keys targets =
      chosen otherwise targets (lookupCase? key keys targets) := by
  induction keys generalizing targets with
  | nil => rfl
  | cons k keys ih =>
      cases targets with
      | nil => rfl
      | cons target targets =>
          by_cases hk : k = key
          · simp [lookupTarget, lookupCase?, hk, chosen]
          · simp only [lookupTarget, lookupCase?, hk, if_false, ih]
            cases lookupCase? key keys targets <;> rfl

theorem lookupCase?_lt {key : Int32} {keys : List Int32} {targets : List Label} {pos : Nat}
    (h : lookupCase? key keys targets = some pos) : pos < targets.length := by
  induction keys generalizing targets pos with
  | nil => simp [lookupCase?] at h
  | cons k keys ih =>
      cases targets with
      | nil => simp [lookupCase?] at h
      | cons target targets =>
          rw [lookupCase?] at h
          split at h
          · cases h
            simp
          · obtain ⟨rest, hrest, rfl⟩ := Option.map_eq_some_iff.1 h
            have := ih hrest
            simp only [List.length_cons]
            omega

/-- Only the number of the targets matters for what is selected. -/
theorem lookupCase?_congr (key : Int32) (keys : List Int32) {targets others : List Label}
    (h : targets.length = others.length) :
    lookupCase? key keys targets = lookupCase? key keys others := by
  induction keys generalizing targets others with
  | nil => rfl
  | cons k keys ih =>
      cases targets with
      | nil =>
          cases others with
          | nil => rfl
          | cons other others => simp at h
      | cons target targets =>
          cases others with
          | nil => simp at h
          | cons other others =>
              simp only [lookupCase?, ih (by simpa using h : targets.length = others.length)]

theorem chosen_mem (otherwise : Label) (targets : List Label) (choice : Option Nat) :
    chosen otherwise targets choice ∈ otherwise :: targets := by
  cases choice with
  | none => exact List.mem_cons_self
  | some pos =>
      cases h : targets[pos]? with
      | none => simp [chosen, h]
      | some target => simp [chosen, h, List.mem_of_getElem? h]

theorem topInt?_of_popInt {f g : Frame} {key : Int32} (h : f.popInt = .ok (key, g)) :
    f.topInt? = some key := by
  unfold Frame.popInt Frame.pop at h
  unfold Frame.topInt?
  cases hs : f.stack with
  | nil => simp [hs, Bind.bind, Except.bind] at h
  | cons v rest =>
      cases v <;> simp_all [Bind.bind, Except.bind]

/-! ## How instructions go on -/

/-- Whatever comes of an operation that succeeds is of a kind. -/
def Yields {α : Type} (P : α → Prop) (x : Except MachineFault α) : Prop :=
  ∀ a, x = .ok a → P a

namespace Yields

variable {α β : Type} {P : β → Prop}

theorem ok {b : β} (h : P b) : Yields P (.ok b) := by
  rintro _ ⟨⟩
  exact h

theorem error (e : MachineFault) : Yields P (.error e) :=
  nofun

theorem bind {x : Except MachineFault α} {g : α → Except MachineFault β}
    (h : ∀ a, Yields P (g a)) : Yields P (x >>= g) := by
  cases x with
  | ok a => exact h a
  | error e => exact error e

end Yields

/-- How an instruction may go on: with the next one if it falls through, at one of its targets,
with a call if it calls, and with the caller if it has no operands. -/
def Outcome.Fits (insn : Instruction) : Outcome → Prop
  | .next _ => insn.fallsThrough = true
  | .jump _ target => target ∈ insn.targets
  | .call .. => ∃ op owner name descriptor onInterface,
      insn = .method op owner name descriptor onInterface
  | .leave _ => ∃ op, insn = .simple op

section Shapes

variable {f : Frame} {w : World}

theorem executeSimple_yields (op : Opcode) :
    Yields (fun r => (∃ g, r.1 = .next g) ∨ ∃ v, r.1 = .leave v) (executeSimple op f w) := by
  cases op <;> try exact .error _
  case nop | aconstNull => exact .ok (.inl ⟨_, rfl⟩)
  case ineg | pop => exact .bind fun _ => .ok (.inl ⟨_, rfl⟩)
  case pop2 => exact .bind fun _ => .bind fun _ => .ok (.inl ⟨_, rfl⟩)
  case dup =>
    simp only [executeSimple]
    split
    · exact .ok (.inl ⟨_, rfl⟩)
    · exact .error _
  case dup2 =>
    simp only [executeSimple]
    split
    · exact .ok (.inl ⟨_, rfl⟩)
    · exact .error _
  case iaload | baload =>
    exact .bind fun _ => .bind fun _ => .bind fun _ => .ok (.inl ⟨_, rfl⟩)
  case iastore | bastore =>
    exact .bind fun _ => .bind fun _ => .bind fun _ => .bind fun _ => .ok (.inl ⟨_, rfl⟩)
  case ireturn | areturn => exact .bind fun _ => .ok (.inr ⟨_, rfl⟩)
  case returnVoid => exact .ok (.inr ⟨_, rfl⟩)

theorem executeOpcode_yields (op : Opcode) :
    Yields (fun r => r.1.Fits (.simple op)) (executeOpcode op f w) := by
  by_cases hfalls : (Instruction.simple op).fallsThrough = true
  · unfold executeOpcode
    split
    · exact .ok hfalls
    · exact .bind fun _ => .bind fun _ => .bind fun _ => .ok hfalls
    · intro r hr
      rcases executeSimple_yields op r hr with ⟨g, hg⟩ | ⟨v, hv⟩
      · rw [hg]
        exact hfalls
      · rw [hv]
        exact ⟨op, rfl⟩
  · cases op <;> try exact absurd rfl hfalls
    case athrow | lreturn | freturn | dreturn => exact .error _
    case ireturn | areturn => exact .bind fun _ => .ok ⟨_, rfl⟩
    case returnVoid => exact .ok ⟨_, rfl⟩

theorem executeConstant_yields (constant : Constant) :
    Yields (fun r => ∃ g, r.1 = .next g) (executeConstant constant f w) := by
  cases constant <;> try exact .error _
  case int n => exact .ok ⟨_, rfl⟩
  case string s => exact .ok ⟨_, rfl⟩
  case dynamic name descriptor bootstrap arguments =>
    simp only [executeConstant]
    split
    · split
      · exact .ok ⟨_, rfl⟩
      · exact .error _
    · exact .error _

theorem executeEntry_yields (name : String) :
    Yields (fun r => ∃ g, r.1 = .next g) (executeEntry name f w) := by
  refine .bind fun ⟨v, g⟩ => ?_
  cases v <;> try exact .error _
  dsimp only
  split
  · exact .ok ⟨_, rfl⟩
  · split
    · exact .ok ⟨_, rfl⟩
    · exact .error _

theorem executeHash_yields : Yields (fun r => ∃ g, r.1 = .next g) (executeHash f w) := by
  refine .bind fun ⟨v, g⟩ => ?_
  cases v <;> try exact .error _
  exact .ok ⟨_, rfl⟩

theorem executeEquals_yields : Yields (fun r => ∃ g, r.1 = .next g) (executeEquals f w) := by
  refine .bind fun ⟨v, g⟩ => .bind fun ⟨u, e⟩ => ?_
  dsimp only
  split
  · exact .ok ⟨_, rfl⟩
  · exact .error _
  · exact .ok ⟨_, rfl⟩

theorem executeCall_yields (op : Opcode) (owner name descriptor : String) (onInterface : Bool) :
    Yields (fun r => r.1.Fits (.method op owner name descriptor onInterface))
      (executeCall op owner name descriptor f w) := by
  have hnext : ∀ r : Outcome × World, (∃ g, r.1 = .next g) →
      r.1.Fits (.method op owner name descriptor onInterface) := by
    rintro r ⟨g, hg⟩
    rw [hg]
    rfl
  unfold executeCall
  split_ifs
  · exact fun r hr => hnext r (executeEntry_yields name r hr)
  · exact fun r hr => hnext r (executeHash_yields r hr)
  · exact fun r hr => hnext r (executeEquals_yields r hr)
  · exact .bind fun _ => .bind fun _ => .ok rfl
  · exact .bind fun _ => .bind fun _ => .ok ⟨_, _, _, _, _, rfl⟩
  · exact .error _

end Shapes

end Machine

open Machine in
/-- Every instruction goes on as its shape allows. -/
theorem Instruction.execute_fits {insn : Instruction} {f : Frame} {w w₁ : World} {o : Outcome}
    (h : insn.execute f w = .ok (o, w₁)) : o.Fits insn := by
  suffices hyields : Yields (fun r => r.1.Fits insn) (insn.execute f w) from hyields _ h
  cases insn with
  | label placed | line number | int op operand => exact .ok rfl
  | simple op => exact executeOpcode_yields op
  | localVar op index =>
      cases op <;> try exact .error _
      case iload | aload => exact .bind fun _ => .ok rfl
      case istore | astore => exact .bind fun _ => .bind fun _ => .ok rfl
  | iinc index delta =>
      refine .bind fun v => ?_
      cases v <;> try exact .error _
      exact .bind fun _ => .ok rfl
  | ldc constant =>
      intro r hr
      obtain ⟨g, hg⟩ := executeConstant_yields constant r hr
      rw [hg]
      rfl
  | type op descriptor =>
      cases op <;> try exact .error _
      case new | checkcast => exact .ok rfl
      case instanceof => exact .bind fun _ => .ok rfl
  | field op owner name descriptor =>
      cases op <;> try exact .error _
      case getstatic => exact .ok rfl
      case putstatic => exact .bind fun _ => .ok rfl
  | method op owner name descriptor onInterface =>
      exact executeCall_yields op owner name descriptor onInterface
  | jump op target =>
      by_cases hgoto : op = .goto
      · subst hgoto
        exact .ok (by simp [Outcome.Fits, Instruction.targets])
      · refine .bind fun ⟨taken, g⟩ => ?_
        cases taken with
        | true => exact .ok (by simp [Outcome.Fits, Instruction.targets])
        | false => exact .ok (by simp [Outcome.Fits, Instruction.fallsThrough, hgoto])
  | tableSwitch low high otherwise targets =>
      refine .bind fun _ => .ok ?_
      rw [tableTarget_eq_chosen]
      exact chosen_mem _ _ _
  | lookupSwitch otherwise keys targets =>
      refine .bind fun _ => .ok ?_
      rw [lookupTarget_eq_chosen]
      exact chosen_mem _ _ _

/-! ## Diverted instructions -/

/-- The site that counts what an instruction did. -/
def Plan.site? (plan : Plan) (index : Nat) : Deed → Option ProbeSite
  | .entered => none
  | .passed number => if plan.lines.contains index then some (.line number) else none
  | .taken => if plan.jumps.contains index then some (.taken index) else none
  | .notTaken => if plan.jumps.contains index then some (.notTaken index) else none
  | .case pos => (plan.switches.get? index).map fun _ => .case index pos
  | .otherwise =>
      (plan.switches.get? index).bind fun site =>
        if site.defaultRetracted then none else some (.otherwise index)

open Machine

/-- How the diverted instruction goes on where the instruction goes on in some way: at the window
that counts the outcome, if there is one. -/
inductive Led (windows : List Window) (site : Option ProbeSite) : Outcome → Outcome → Prop
  | same {o : Outcome} : (∀ g target, o ≠ .jump g target) → Led windows site o o
  | straight {g : Frame} {target : Label} : site = none →
      Led windows site (.jump g target) (.jump g target)
  | window {g : Frame} {w : Window} : w ∈ windows → site = some w.site →
      Led windows site (.jump g w.destination) (.jump g w.label)

theorem Led.mono {windows more : List Window} {site : Option ProbeSite} {o o' : Outcome}
    (h : Led windows site o o') (hmore : ∀ w ∈ windows, w ∈ more) : Led more site o o' := by
  cases h with
  | same ho => exact .same ho
  | straight hsite => exact .straight hsite
  | window hw hsite => exact .window (hmore _ hw) hsite

namespace Window

theorem getElem?_ofTargets (index pos : Nat) (fresh : UInt32) {i : Nat} {targets : List Label}
    {target : Label} (h : targets[i]? = some target) :
    { destination := target, label := ⟨fresh + i⟩, site := .case index (pos + i) } ∈
      ofTargets index pos fresh targets := by
  induction targets generalizing pos fresh i with
  | nil => simp at h
  | cons other rest ih =>
      cases i with
      | zero =>
          obtain rfl : other = target := by simpa using h
          have hzero : fresh + UInt32.ofNat 0 = fresh := UInt32.add_zero fresh
          rw [hzero]
          exact List.mem_cons_self
      | succ i =>
          have hrest := ih (pos + 1) (fresh + 1) (by simpa using h)
          rw [UInt32.add_assoc, UInt32.add_comm 1, Nat.add_right_comm pos] at hrest
          rw [UInt32.ofNat_add]
          exact List.mem_cons_of_mem _ hrest

/-- A diverted switch leads to the windows of its outcomes. -/
theorem led_ofSwitch {plan : Plan} {site : SwitchSite} {index : Nat} {fresh : UInt32}
    {otherwise : Label} {targets : List Label} (hsite : plan.switches.get? index = some site)
    (g : Frame) {choice : Option Nat} (hchoice : ∀ pos, choice = some pos → pos < targets.length) :
    Led (ofSwitch site index fresh otherwise targets) (plan.site? index (selected choice))
      (.jump g (chosen otherwise targets choice))
      (.jump g (chosen (divertedDefault site fresh otherwise targets)
        (divertedTargets fresh targets) choice)) := by
  cases choice with
  | none =>
      cases hretracted : site.defaultRetracted with
      | true =>
          have hdefault : divertedDefault site fresh otherwise targets = otherwise := by
            simp [divertedDefault, hretracted]
          simp only [chosen, hdefault]
          exact .straight (by simp [selected, Plan.site?, hsite, hretracted])
      | false =>
          have hdefault : divertedDefault site fresh otherwise targets =
              ⟨fresh + targets.length⟩ := by
            simp [divertedDefault, hretracted]
          simp only [chosen, hdefault]
          refine .window (w := ⟨otherwise, ⟨fresh + targets.length⟩, .otherwise index⟩) ?_ ?_
          · simp [ofSwitch, hretracted]
          · simp [selected, Plan.site?, hsite, hretracted]
  | some pos =>
      have hlt := hchoice pos rfl
      have hget : targets[pos]? = some targets[pos] := List.getElem?_eq_getElem hlt
      have hdiverted : (divertedTargets fresh targets)[pos]? = some ⟨fresh + pos⟩ :=
        Label.getElem?_successive hlt
      simp only [chosen, hget, hdiverted, Option.getD_some]
      refine .window (w := ⟨targets[pos], ⟨fresh + pos⟩, .case index pos⟩) ?_ ?_
      · refine List.mem_append_left _ ?_
        have := getElem?_ofTargets index 0 fresh hget
        rwa [Nat.zero_add] at this
      · simp [selected, Plan.site?, hsite]

end Window

namespace Plan

variable (plan : Plan)

/-- The executions of an instruction and of the diverted instruction. -/
abbrev AlikeDiverted (index : Nat) (fresh : UInt32) (insn : Instruction) (f : Frame) :
    Executed → Executed → Prop :=
  Alike fun r r' => r'.2 = r.2 ∧
    Led (plan.divert index fresh insn).2 ((insn.deed? f r.1).bind (plan.site? index)) r.1 r'.1

variable {plan} {index : Nat} {fresh : UInt32} {insn : Instruction} {f : Frame} {w : World}

/-- Nothing changes where no jump is counted. -/
theorem alike_of_uncounted (hinsn : (plan.divert index fresh insn).1.insn = insn)
    (hjump : ∀ g target, (insn.deed? f (.jump g target)).bind (plan.site? index) = none) :
    plan.AlikeDiverted index fresh insn f (insn.execute f w)
      ((plan.divert index fresh insn).1.insn.execute f w) := by
  rw [hinsn]
  cases insn.execute f w with
  | error e => exact .error e
  | ok r =>
      obtain ⟨o, w⟩ := r
      cases o with
      | jump g target => exact .ok ⟨rfl, .straight (hjump g target)⟩
      | _ => exact .ok ⟨rfl, .same nofun⟩

theorem site?_selected_of_none (hsite : plan.switches.get? index = none) (choice : Option Nat) :
    plan.site? index (selected choice) = none := by
  cases choice <;> simp [selected, site?, hsite]

variable (plan) in
/-- A diverted instruction does what the instruction does, and leads to its windows. -/
theorem execute_divert (index : Nat) (fresh : UInt32) (insn : Instruction) (f : Frame) (w : World) :
    plan.AlikeDiverted index fresh insn f (insn.execute f w)
      ((plan.divert index fresh insn).1.insn.execute f w) := by
  cases insn with
  | jump op target =>
      by_cases hplan : plan.jumps.contains index = true
      · have hdivert : plan.divert index fresh (.jump op target) =
            ({ insn := .jump op ⟨fresh⟩, probe := some (.notTaken index) },
              [{ destination := target, label := ⟨fresh⟩, site := .taken index }]) := by
          simp only [divert, hplan, if_true]
        simp only [AlikeDiverted, hdivert, Instruction.execute]
        cases branch op f with
        | error e => exact .error e
        | ok r =>
            obtain ⟨taken, g⟩ := r
            cases taken with
            | true =>
                refine .ok ⟨rfl, .window (w := ⟨target, ⟨fresh⟩, .taken index⟩)
                  List.mem_cons_self ?_⟩
                simp only [Instruction.deed?, Option.bind_some, site?, hplan, if_true]
            | false => exact .ok ⟨rfl, .same nofun⟩
      · refine alike_of_uncounted ?_ fun g target => ?_
        · simp only [divert, hplan, Bool.false_eq_true, if_false]
        · simp only [Instruction.deed?, Option.bind_some, site?, hplan, Bool.false_eq_true,
            if_false]
  | tableSwitch low high otherwise targets =>
      cases hsite : plan.switches.get? index with
      | none =>
          refine alike_of_uncounted (by simp only [divert, hsite]) fun g target => ?_
          cases htop : f.topInt? <;> simp [Instruction.deed?, htop, site?_selected_of_none hsite]
      | some site =>
          simp only [AlikeDiverted, divert, hsite, Instruction.execute]
          cases hpop : f.popInt with
          | error e => exact .error e
          | ok r =>
              obtain ⟨key, g⟩ := r
              refine .ok ⟨rfl, ?_⟩
              have hlength : (Window.divertedTargets fresh targets).length = targets.length :=
                Label.length_successive
              simp only [Instruction.deed?, topInt?_of_popInt hpop, Option.map_some,
                Option.bind_some, tableTarget_eq_chosen, hlength]
              exact Window.led_ofSwitch hsite g fun pos => tableCase?_lt
  | lookupSwitch otherwise keys targets =>
      cases hsite : plan.switches.get? index with
      | none =>
          refine alike_of_uncounted (by simp only [divert, hsite]) fun g target => ?_
          cases htop : f.topInt? <;> simp [Instruction.deed?, htop, site?_selected_of_none hsite]
      | some site =>
          simp only [AlikeDiverted, divert, hsite, Instruction.execute]
          cases hpop : f.popInt with
          | error e => exact .error e
          | ok r =>
              obtain ⟨key, g⟩ := r
              refine .ok ⟨rfl, ?_⟩
              have hcase : lookupCase? key keys (Window.divertedTargets fresh targets) =
                  lookupCase? key keys targets :=
                lookupCase?_congr key keys Label.length_successive
              simp only [Instruction.deed?, topInt?_of_popInt hpop, Option.map_some,
                Option.bind_some, lookupTarget_eq_chosen, hcase]
              exact Window.led_ofSwitch hsite g fun pos => lookupCase?_lt
  | _ => exact alike_of_uncounted rfl fun g target => rfl

variable (plan)

/-- The probe behind an instruction counts what the instruction did when it falls through. -/
theorem probe_divert {o : Outcome} (f : Frame)
    (h : (∃ g, o = .next g) ∨ ∃ g name descriptor args, o = .call g name descriptor args)
    (hfits : o.Fits insn) :
    (plan.divert index fresh insn).1.probe = (insn.deed? f o).bind (plan.site? index) := by
  rcases h with ⟨g, rfl⟩ | ⟨g, name, descriptor, args, rfl⟩
  · cases insn with
    | line number => simp only [divert, Instruction.deed?, Option.bind_some, site?]
    | jump op target =>
        simp only [divert, Instruction.deed?, Option.bind_some, site?]
        split <;> rfl
    | tableSwitch low high otherwise targets | lookupSwitch otherwise keys targets =>
        simp only [divert]
        cases plan.switches.get? index <;> rfl
    | _ => rfl
  · obtain ⟨op, owner, name, descriptor, onInterface, rfl⟩ := hfits
    rfl

/-- Control arrives behind an instruction that goes on with the next one or calls. -/
theorem passes_divert {o : Outcome}
    (h : (∃ g, o = .next g) ∨ ∃ g name descriptor args, o = .call g name descriptor args)
    (hfits : o.Fits insn) : (plan.divert index fresh insn).1.passes true = true := by
  rcases h with ⟨g, rfl⟩ | ⟨g, name, descriptor, args, rfl⟩
  · cases insn with
    | jump op target =>
        simp only [divert]
        split <;> exact hfits
    | tableSwitch low high otherwise targets | lookupSwitch otherwise keys targets =>
        simp [Outcome.Fits, Instruction.fallsThrough, Instruction.flow] at hfits
    | line number | label placed => rfl
    | _ => exact hfits
  · obtain ⟨op, owner, name, descriptor, onInterface, rfl⟩ := hfits
    rfl

/-- A label lets control through however it is reached. -/
theorem passes_divert_label (index : Nat) (fresh : UInt32) (placed : Label) (reachable : Bool) :
    (plan.divert index fresh (.label placed)).1.passes reachable = true :=
  rfl

end Plan

end BytecodeCoverage
