import BytecodeCoverage.Probe.Code
import BytecodeCoverage.Proofs.Machine.Heights

/-!
# How high the operands of probes get

A probe needs as many operands above those of the method as the method's limit is raised by, and
the start of a method needs one.

**Results.**
* `ProbeStyle.peak_probe`: the operands of a probe.
* `ProbeStyle.peak_prologue`: the operands of the start of a method.
* `Counters.peak_filling`: the operands while the field is filled.
-/

namespace BytecodeCoverage

open Instruction

theorem Instruction.effect_pushInt (value : Int32) : (pushInt value).effect = 1 := by
  unfold pushInt
  split <;> first | rfl | skip
  split <;> first | rfl | skip
  split <;> rfl

theorem Entry.effect_callHits (mode : HitMode) : (callHits mode).effect = 0 := by
  cases mode <;> simp [callHits, invokeStatic, effect]

theorem Entry.effect_callTrace : callTrace.effect = 0 := by
  simp [callTrace, invokeStatic, effect]

/-- Straight code that leaves the height as it was gets as high as its parts. -/
theorem Probe.peak_code_append (mode : HitMode) (array : UInt16) (slot : Nat)
    (rest : List Instruction) :
    peak (Probe.code mode array slot ++ rest) ≤ max (Probe.depth mode).toNat (peak rest) := by
  have hpush : (pushSlot slot).effect = 1 := effect_pushInt _
  have hload : (localVar .aload array).effect = 1 := rfl
  have hdup : (simple .dup2).effect = 2 := rfl
  have hread : (simple .iaload).effect = -1 := rfl
  have hone : (simple .iconst1).effect = 1 := rfl
  have hadd : (simple .iadd).effect = -1 := rfl
  have hwrite : (simple .iastore).effect = -3 := rfl
  have hset : (simple .bastore).effect = -3 := rfl
  cases mode with
  | count =>
      have hdepth : (Probe.depth .count).toNat = 4 := rfl
      simp only [Probe.code, List.cons_append, List.nil_append, peak, hload, hpush, hdup, hread,
        hone, hadd, hwrite, hdepth]
      omega
  | flag =>
      have hdepth : (Probe.depth .flag).toNat = 3 := rfl
      simp only [Probe.code, List.cons_append, List.nil_append, peak, hload, hpush, hone, hset,
        hdepth]
      omega

/-- The operands while the field is filled. -/
theorem Counters.peak_filling (c : Counters) (ready : Label) :
    peak ([.field .getstatic c.className Entry.field (Entry.arrayDescriptor c.mode),
      .simple .dup] ++ .jump .ifnonnull ready :: [.simple .pop, .ldc (.string c.className),
        Entry.callHits c.mode, .simple .dup,
        .field .putstatic c.className Entry.field (Entry.arrayDescriptor c.mode),
        .label ready]) = 2 := by
  have hread (owner name descriptor : String) :
      (Instruction.field .getstatic owner name descriptor).effect = 1 := rfl
  have hwrite (owner name descriptor : String) :
      (Instruction.field .putstatic owner name descriptor).effect = -1 := rfl
  have hdup : (simple .dup).effect = 1 := rfl
  have hpop : (simple .pop).effect = -1 := rfl
  have htest : (jump .ifnonnull ready).effect = -1 := rfl
  have hlabel : (label ready).effect = 0 := rfl
  have hconstant : (ldc (.string c.className)).effect = 1 := rfl
  simp [peak, Entry.effect_callHits, hread, hwrite, hdup, hpop, htest, hlabel, hconstant]

namespace ProbeStyle

variable (style : ProbeStyle)

/-- The operands of a probe. -/
theorem peak_probe (array : UInt16) (site : ProbeSite) (slot : Nat) :
    peak (style.probe array site slot) ≤ (Probe.depth style.mode).toNat := by
  have hflag : (Probe.depth .flag).toNat ≤ (Probe.depth style.mode).toNat := by
    cases style.mode <;> decide
  have hcode (mode : HitMode) (place : UInt16) :
      peak (Probe.code mode place slot) ≤ (Probe.depth mode).toNat := by
    have h := Probe.peak_code_append mode place slot []
    rwa [List.append_nil, peak, Nat.max_zero] at h
  have hmark (marked : Bool) :
      peak (if marked then Probe.code .flag (array + 1) slot else []) ≤
        (Probe.depth style.mode).toNat := by
    cases marked with
    | true => exact Nat.le_trans (hcode .flag _) hflag
    | false => exact Nat.zero_le _
  refine Nat.le_trans (Probe.peak_code_append style.mode array slot _)
    (Nat.max_le.2 ⟨Nat.le_refl _, ?_⟩)
  cases site with
  | line number => exact hmark _
  | _ => exact Nat.zero_le _

/-- The operands of the start of a method. -/
theorem peak_prologue (array : UInt16) : peak (style.prologue array) ≤ 1 := by
  have hstore (index : UInt16) : (localVar .astore index).effect = -1 := rfl
  have hconstant (constant : Constant) : (ldc constant).effect = 1 := rfl
  have hfield (owner name descriptor : String) :
      (Instruction.field .getstatic owner name descriptor).effect = 1 := rfl
  unfold prologue Counters.acquire
  cases style.counters.strategy <;> cases style.traced <;>
    simp [peak, Entry.effect_callHits, Entry.effect_callTrace, hstore, hconstant, hfield]

end ProbeStyle

end BytecodeCoverage
