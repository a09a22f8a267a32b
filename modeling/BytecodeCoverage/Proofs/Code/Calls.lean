import BytecodeCoverage.Code.Assembler
import BytecodeCoverage.Proofs.Code.Forms
import Mathlib.Data.List.Nodup

/-!
# Calls of an assembler

What a sequence of calls does to an assembler is said call by call: what the call writes into the
code and into the exception table, whether it draws a label, and how many local variables it needs.
Labels are numbered in the order in which they are drawn, so what a call writes depends on how many
have been drawn before.

**Main definitions.**
* `Assembler.Call`: the calls, `Assembler.run` their effect.
* `Assembler.Call.Writes`, `Assembler.Lists`: the code that calls stand for.

**Results.**
* `Assembler.nextLabel_run`, `Assembler.tryRanges_run`, `Assembler.maxLocals_run`: what calls do to
  labels, exception table and limits.
* `Assembler.exists_lists_run`: the code after calls.
-/

namespace BytecodeCoverage

namespace Assembler

/-- A call that adds something to a body. Whatever else is emitted comes as an instruction. -/
inductive Call
  | locals (count : UInt16)
  | stack (depth : UInt16)
  | newLabel
  | label
  | place (label : Label)
  | emit (insn : Instruction)
  | iconst (value : Int32)
  | tableSwitch (low : Int32) (otherwise : Label) (targets : List Label)
  | lookupSwitch (otherwise : Label) (cases : List (Int32 × Label))
  | invoke (opcode : Opcode) (owner name descriptor : String)
  | tryCatch (start stop handler : Label) (catchType : Option String)

/-- The assembler after a call. -/
def call (asm : Assembler) : Call → Assembler
  | .locals count => asm.locals count
  | .stack depth => asm.stack depth
  | .newLabel => asm.newLabel.2
  | .label => asm.label.2
  | .place label => asm.place label
  | .emit insn => asm.emit insn
  | .iconst value => asm.iconst value
  | .tableSwitch low otherwise targets => asm.tableSwitch low otherwise targets
  | .lookupSwitch otherwise cases => asm.lookupSwitch otherwise cases
  | .invoke opcode owner name descriptor => asm.invoke opcode owner name descriptor
  | .tryCatch start stop handler catchType => asm.tryCatch start stop handler catchType

/-- The assembler after calls. -/
def run (asm : Assembler) (calls : List Call) : Assembler :=
  calls.foldl call asm

namespace Call

/-- How many labels a call draws. -/
def draws : Call → Nat
  | .newLabel | .label => 1
  | _ => 0

/-- The entries that a call adds to the exception table. -/
def ranges : Call → List TryRange
  | .tryCatch start stop handler catchType => [⟨start, stop, handler, catchType⟩]
  | _ => []

/-- How many local variables a call asks for. -/
def needs : Call → Nat
  | .locals count => count.toNat
  | .emit (.localVar opcode index) => index.toNat + opcode.localWidth.toNat
  | .emit (.iinc index _) => index.toNat + 1
  | _ => 0

/-- The code that a call writes when `next` labels have been drawn. The last key of a table switch
follows from the first one; the cases of a lookup switch are written by ascending key. -/
inductive Writes (next : Nat) : Call → List Instruction → Prop
  | locals (count : UInt16) : Writes next (.locals count) []
  | stack (depth : UInt16) : Writes next (.stack depth) []
  | newLabel : Writes next .newLabel []
  | label : Writes next .label [.label ⟨next⟩]
  | place (label : Label) : Writes next (.place label) [.label label]
  | emit (insn : Instruction) : Writes next (.emit insn) [insn]
  | iconst (value : Int32) : Writes next (.iconst value) [.pushInt value]
  | tableSwitch {low high : Int32} {otherwise : Label} {targets : List Label}
      (hlow : low ≤ high) (hcount : (targets.length : Int) = high.toInt - low.toInt + 1) :
      Writes next (.tableSwitch low otherwise targets) [.tableSwitch low high otherwise targets]
  | lookupSwitch {otherwise : Label} {cases sorted : List (Int32 × Label)}
      (hperm : sorted.Perm cases) (hkeys : (sorted.map Prod.fst).Pairwise (· < ·)) :
      Writes next (.lookupSwitch otherwise cases)
        [.lookupSwitch otherwise (sorted.map Prod.fst) (sorted.map Prod.snd)]
  | invoke (opcode : Opcode) (owner name descriptor : String) :
      Writes next (.invoke opcode owner name descriptor)
        [.method opcode owner name descriptor (opcode == .invokeinterface)]
  | tryCatch (start stop handler : Label) (catchType : Option String) :
      Writes next (.tryCatch start stop handler catchType) []

/-- The keys of a switch do not repeat and have room, and no switch comes as an instruction. -/
def Proper : Call → Prop
  | .emit insn => insn.isSwitch = false
  | .tableSwitch low _ targets => targets ≠ [] ∧ low.toInt + targets.length - 1 ≤ 2147483647
  | .lookupSwitch _ cases => (cases.map Prod.fst).Nodup
  | _ => True

/-- A table switch has no more targets than the greatest integer there is. -/
def Short : Call → Prop
  | .tableSwitch _ _ targets => targets.length ≤ 2147483647
  | _ => True

end Call

/-- How many labels calls draw. -/
def drawn : List Call → Nat
  | [] => 0
  | call :: calls => call.draws + drawn calls

/-- How many local variables calls ask for. -/
def localsNeeded (calls : List Call) : Nat :=
  (calls.map Call.needs).foldr max 0

/-- The code that calls stand for when `next` labels have been drawn before. -/
inductive Lists : Nat → List Call → List Instruction → Prop
  | nil (next : Nat) : Lists next [] []
  | cons {next : Nat} {call : Call} {calls : List Call} {written code : List Instruction}
      (hcall : call.Writes next written) (hcalls : Lists (next + call.draws) calls code) :
      Lists next (call :: calls) (written ++ code)

/-! ## One call -/

section Call

variable (asm : Assembler) (step : Call)

theorem nextLabel_call : (asm.call step).nextLabel = asm.nextLabel + step.draws := by
  cases step with
  | newLabel | label => rfl
  | _ => exact (UInt32.add_zero _).symm

theorem tryRanges_call : (asm.call step).tryRanges = asm.tryRanges ++ step.ranges := by
  cases step with
  | tryCatch => rfl
  | _ => exact (List.append_nil _).symm

theorem localsTouched_pushInt (value : Int32) : localsTouched (.pushInt value) = 0 := by
  obtain ⟨op, h⟩ | ⟨op, h⟩ | h := Instruction.forms_of_pushInt value <;> rw [h] <;> rfl

theorem toNat_localsTouched (insn : Instruction) :
    (localsTouched insn).toNat = min (Call.emit insn).needs 0xffff := by
  cases insn with
  | localVar opcode index => exact toNat_satAdd16 index opcode.localWidth
  | iinc index delta => exact toNat_satAdd16 index 1
  | _ => rfl

theorem maxLocals_emit (insn : Instruction) :
    (asm.emit insn).maxLocals.toNat =
      max asm.maxLocals.toNat (min (Call.emit insn).needs 0xffff) := by
  rw [emit, UInt16.toNat_max, toNat_localsTouched]

/-- An instruction that touches no local variable leaves their number alone. -/
theorem maxLocals_emit_of_eq {insn : Instruction} (h : localsTouched insn = 0) :
    (asm.emit insn).maxLocals.toNat = max asm.maxLocals.toNat (min 0 0xffff) := by
  rw [emit, h, UInt16.toNat_max]
  rfl

/-- The limit on local variables is as high as it was, or as high as the call needs. -/
theorem maxLocals_call :
    (asm.call step).maxLocals.toNat = max asm.maxLocals.toNat (min step.needs 0xffff) := by
  cases step with
  | locals count =>
      have hcount : count.toNat < 65536 := count.toNat_lt
      rw [call, locals, UInt16.toNat_max, Call.needs, Nat.min_eq_left (by omega)]
  | emit insn => exact asm.maxLocals_emit insn
  | iconst value => exact asm.maxLocals_emit_of_eq (localsTouched_pushInt value)
  | label => exact asm.newLabel.2.maxLocals_emit_of_eq rfl
  | place label => exact asm.maxLocals_emit_of_eq rfl
  | tableSwitch | lookupSwitch | invoke => exact asm.maxLocals_emit_of_eq rfl
  | stack | newLabel | tryCatch => exact (Nat.max_eq_left (Nat.zero_le _)).symm

/-- The last key of a table switch is computed exactly, if the keys have room. -/
theorem toInt_lastKey {low : Int32} {count : Nat} (hpos : 0 < count) (hshort : count ≤ 2147483647)
    (hroom : low.toInt + count - 1 ≤ 2147483647) :
    (Int32.ofInt (max (min (low.toInt + min (count : Int) Int32.maxValue.toInt - 1)
      Int32.maxValue.toInt) Int32.minValue.toInt)).toInt = low.toInt + count - 1 := by
  have hlow := low.le_toInt
  have hmax : Int32.maxValue.toInt = 2147483647 := rfl
  have hmin : Int32.minValue.toInt = -2147483648 := rfl
  rw [hmax, hmin, Int32.toInt_ofInt_of_le (by omega) (by omega)]
  omega

theorem writes_tableSwitch {low : Int32} {otherwise : Label} {targets : List Label}
    (hproper : (Call.tableSwitch low otherwise targets).Proper)
    (hshort : (Call.tableSwitch low otherwise targets).Short) (next : Nat) :
    ∃ written, (Call.tableSwitch low otherwise targets).Writes next written ∧
      (asm.tableSwitch low otherwise targets).code = asm.code ++ written := by
  obtain ⟨hne, hroom⟩ := hproper
  have hpos := List.length_pos_iff.2 hne
  have hlast := toInt_lastKey hpos hshort hroom
  refine ⟨_, .tableSwitch ?_ ?_, rfl⟩
  · rw [Int32.le_iff_toInt_le, hlast]
    omega
  · rw [hlast]
    omega

/-- The order by keys, as it is decided. -/
def keyLE (a b : Int32 × Label) : Bool :=
  a.1 ≤ b.1

theorem pairwise_keyLE_mergeSort (cases : List (Int32 × Label)) :
    (cases.mergeSort keyLE).Pairwise fun a b => a.1 ≤ b.1 := by
  have hsorted := @List.pairwise_mergeSort _ keyLE
    (fun a b c hab hbc => decide_eq_true
      (Int32.le_trans (of_decide_eq_true hab) (of_decide_eq_true hbc)))
    (fun a b => by simpa [keyLE] using Int32.le_total a.1 b.1) cases
  exact hsorted.imp of_decide_eq_true

/-- The keys of sorted cases ascend, if no key occurs twice. -/
theorem pairwise_keys_mergeSort {cases : List (Int32 × Label)} (h : (cases.map Prod.fst).Nodup) :
    ((cases.mergeSort keyLE).map Prod.fst).Pairwise (· < ·) := by
  have hnodup := ((List.mergeSort_perm cases keyLE).map Prod.fst).nodup_iff.2 h
  rw [List.nodup_iff_pairwise_ne] at hnodup
  refine List.Pairwise.imp₂ (fun a b => Int32.lt_of_le_of_ne) ?_ hnodup
  exact List.pairwise_map.2 (pairwise_keyLE_mergeSort cases)

theorem writes_lookupSwitch {otherwise : Label} {cases : List (Int32 × Label)}
    (hproper : (Call.lookupSwitch otherwise cases).Proper) (next : Nat) :
    ∃ written, (Call.lookupSwitch otherwise cases).Writes next written ∧
      (asm.lookupSwitch otherwise cases).code = asm.code ++ written :=
  ⟨_, .lookupSwitch (List.mergeSort_perm _ _) (pairwise_keys_mergeSort hproper), rfl⟩

/-- What a call writes is appended to the code. -/
theorem exists_writes_call (hproper : step.Proper) (hshort : step.Short) {next : Nat}
    (hnext : asm.nextLabel = next) :
    ∃ written, step.Writes next written ∧ (asm.call step).code = asm.code ++ written := by
  cases step with
  | tableSwitch => exact asm.writes_tableSwitch hproper hshort next
  | lookupSwitch => exact asm.writes_lookupSwitch hproper next
  | locals count => exact ⟨_, .locals count, (List.append_nil _).symm⟩
  | stack depth => exact ⟨_, .stack depth, (List.append_nil _).symm⟩
  | newLabel => exact ⟨_, .newLabel, (List.append_nil _).symm⟩
  | tryCatch start stop handler catchType =>
      exact ⟨_, .tryCatch start stop handler catchType, (List.append_nil _).symm⟩
  | label =>
      refine ⟨_, .label, ?_⟩
      rw [← hnext]
      rfl
  | place label => exact ⟨_, .place label, rfl⟩
  | emit insn => exact ⟨_, .emit insn, rfl⟩
  | iconst value => exact ⟨_, .iconst value, rfl⟩
  | invoke opcode owner name descriptor => exact ⟨_, .invoke opcode owner name descriptor, rfl⟩

end Call

/-! ## Sequences of calls -/

theorem drawn_cons (call : Call) (calls : List Call) :
    drawn (call :: calls) = call.draws + drawn calls :=
  rfl

theorem drawn_append (before after : List Call) :
    drawn (before ++ after) = drawn before + drawn after := by
  induction before with
  | nil => exact (Nat.zero_add _).symm
  | cons call before ih => rw [List.cons_append, drawn_cons, drawn_cons, ih, Nat.add_assoc]

theorem localsNeeded_cons (call : Call) (calls : List Call) :
    localsNeeded (call :: calls) = max call.needs (localsNeeded calls) :=
  rfl

theorem localsNeeded_append (before after : List Call) :
    localsNeeded (before ++ after) = max (localsNeeded before) (localsNeeded after) := by
  induction before with
  | nil => exact (Nat.zero_max _).symm
  | cons call before ih =>
      rw [List.cons_append, localsNeeded_cons, localsNeeded_cons, ih, Nat.max_assoc]

section Run

variable (asm : Assembler) (calls : List Call)

theorem nextLabel_run : (asm.run calls).nextLabel = asm.nextLabel + drawn calls := by
  induction calls generalizing asm with
  | nil => exact (UInt32.add_zero _).symm
  | cons step calls ih =>
      rw [run, List.foldl_cons, ← run, ih, nextLabel_call, drawn_cons, UInt32.ofNat_add,
        UInt32.add_assoc]

theorem tryRanges_run :
    (asm.run calls).tryRanges = asm.tryRanges ++ calls.flatMap Call.ranges := by
  induction calls generalizing asm with
  | nil => exact (List.append_nil _).symm
  | cons step calls ih =>
      rw [run, List.foldl_cons, ← run, ih, tryRanges_call, List.flatMap_cons, List.append_assoc]

theorem maxLocals_run :
    (asm.run calls).maxLocals.toNat =
      max asm.maxLocals.toNat (min (localsNeeded calls) 0xffff) := by
  induction calls generalizing asm with
  | nil => exact (Nat.max_eq_left (Nat.zero_le _)).symm
  | cons step calls ih =>
      rw [run, List.foldl_cons, ← run, ih, maxLocals_call, localsNeeded_cons]
      omega

/-- What the calls stand for is appended to the code. -/
theorem exists_lists_run (hproper : ∀ call ∈ calls, call.Proper)
    (hshort : ∀ call ∈ calls, call.Short) {next : Nat} (hnext : asm.nextLabel = next) :
    ∃ code, Lists next calls code ∧ (asm.run calls).code = asm.code ++ code := by
  induction calls generalizing asm next with
  | nil => exact ⟨[], .nil _, (List.append_nil _).symm⟩
  | cons step calls ih =>
      rw [List.forall_mem_cons] at hproper hshort
      obtain ⟨written, hwritten, hcall⟩ := asm.exists_writes_call step hproper.1 hshort.1 hnext
      have hdrawn : (asm.call step).nextLabel = ↑(next + step.draws) := by
        rw [nextLabel_call, hnext, UInt32.ofNat_add]
      obtain ⟨code, hcode, hrun⟩ := ih (asm.call step) hproper.2 hshort.2 hdrawn
      refine ⟨written ++ code, .cons hwritten hcode, ?_⟩
      rw [run, List.foldl_cons, ← run, hrun, hcall, List.append_assoc]

end Run

end Assembler

end BytecodeCoverage
