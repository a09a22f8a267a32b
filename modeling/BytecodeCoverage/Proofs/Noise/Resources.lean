import BytecodeCoverage.Proofs.Code.Forms
import BytecodeCoverage.Proofs.Scan.Requests

/-!
# Null tests of resources

The code that closes a resource loads it, tests it against null and loads it again.  So a failed
match can contain the beginning of another one.  The machine does not go back to that load, and
where tests of one variable follow each other it looks at every other one.

**Main definitions.**
* `Closing`: the instructions that close a resource.
* `testsOf`: the tests of a variable right before an instruction.

**Results.**
* `Noise.TryWithResources.tested_iff_odd`: which of the tests are looked at.
* `Scan.retracted_iff_closing`: the jumps that are retracted.
-/

namespace BytecodeCoverage

open Noise

/-- A local variable is tested against null and closed. -/
inductive Closing (index : UInt16) : List Instruction → Instruction → List Instruction → Prop
  | word {op call : Opcode} (hop : op = .ifnull ∨ op = .ifnonnull)
      (hcall : call = .invokeinterface ∨ call = .invokevirtual) (target : Label) (owner : String)
      (onInterface : Bool) :
      Closing index [.localVar .aload index] (.jump op target)
        [.localVar .aload index, .method call owner "close" "()V" onInterface]

/-- How many null tests of a local variable stand at the end of a history, with nothing between
them. -/
def testsOf (index : UInt16) : List Instruction → Nat
  | .jump op _ :: .localVar .aload other :: earlier =>
      if (op = .ifnull ∨ op = .ifnonnull) ∧ other = index then testsOf index earlier + 1 else 0
  | _ => 0

namespace Noise.TryWithResources

variable {state : State} {insn : Instruction} {ledger : Ledger} {id : JumpId} {e : Enumeration}
  {seen : List Instruction} {index : UInt16}

theorem restart_eq_loaded : restart insn = .loaded index ↔ insn = .localVar .aload index := by
  rw [← Instruction.loadIndex?_eq_some rfl]
  unfold restart
  split <;> simp_all

theorem closes_iff : closes insn = true ↔ ∃ call owner onInterface,
    (call = .invokeinterface ∨ call = .invokevirtual) ∧
      insn = .method call owner "close" "()V" onInterface := by
  unfold closes
  split
  · simp
  · simp
  · rename_i hinterface hvirtual
    refine iff_of_false Bool.false_ne_true ?_
    rintro ⟨call, owner, onInterface, rfl | rfl, rfl⟩
    · exact hinterface owner "close" "()V" onInterface rfl
    · exact hvirtual owner "close" "()V" onInterface rfl

theorem step_eq_loaded : (step state insn ledger).1 = .loaded index ↔
    insn = .localVar .aload index ∧ ∀ id, state ≠ .tested index id := by
  have hload {other : UInt16} :
      insn.loadIndex? .aload = some other ↔ insn = .localVar .aload other :=
    Instruction.loadIndex?_eq_some rfl
  constructor
  · cases hhere : ledger.jumpHere <;> cases state <;>
      grind [step, fst_orRestart, restart_eq_loaded]
  · rintro ⟨rfl, hstate⟩
    cases state with
    | tested other id =>
        have hother : index ≠ other := fun h => hstate id (h ▸ rfl)
        simp [step, fst_orRestart, hload.2 rfl, hother, restart_eq_loaded]
    | _ => exact restart_eq_loaded.2 rfl

theorem step_eq_tested : (step state insn ledger).1 = .tested index id ↔ state = .loaded index ∧
    (∃ op target, (op = .ifnull ∨ op = .ifnonnull) ∧ insn = .jump op target) ∧
      ledger.jumpHere = some id := by
  cases hhere : ledger.jumpHere <;> cases state <;>
    grind [step, fst_orRestart, restart, Instruction.isJumpWith_iff]

theorem step_eq_reloaded : (step state insn ledger).1 = .reloaded id ↔
    ∃ index, state = .tested index id ∧ insn = .localVar .aload index := by
  simp only [← Instruction.loadIndex?_eq_some (show Opcode.isLoad .aload = true from rfl)]
  cases hhere : ledger.jumpHere <;> cases state <;>
    grind [step, fst_orRestart, restart]

theorem step_asks :
    (step state insn ledger).2 = .jump id ↔ state = .reloaded id ∧ closes insn = true := by
  cases state <;> grind [step, snd_orRestart]

/-! The states along the pattern. -/

theorem after_eq_loaded : tryWithResources.stateAfter e seen = .loaded index ↔
    ∃ earlier, seen = .localVar .aload index :: earlier ∧
      ∀ id, tryWithResources.stateAfter e earlier ≠ .tested index id := by
  refine (tryWithResources.stateAfter_eq_iff (by nofun) fun _ _ _ => step_eq_loaded).trans ?_
  constructor
  · rintro ⟨_, earlier, rfl, rfl, hbefore⟩
    exact ⟨earlier, rfl, hbefore⟩
  · rintro ⟨earlier, rfl, hbefore⟩
    exact ⟨_, earlier, rfl, rfl, hbefore⟩

theorem after_eq_tested : tryWithResources.stateAfter e seen = .tested index id ↔
    ∃ op target earlier, (op = .ifnull ∨ op = .ifnonnull) ∧
      seen = .jump op target :: .localVar .aload index :: earlier ∧
      (e.registered seen).jumpHere = some id ∧
      ∀ id', tryWithResources.stateAfter e earlier ≠ .tested index id' := by
  refine (tryWithResources.stateAfter_eq_iff (by nofun) fun _ _ _ => step_eq_tested).trans ?_
  constructor
  · rintro ⟨_, _, rfl, hloaded, ⟨op, target, hop, rfl⟩, hhere⟩
    obtain ⟨earlier, rfl, hbefore⟩ := after_eq_loaded.1 hloaded
    exact ⟨op, target, earlier, hop, rfl, hhere, hbefore⟩
  · rintro ⟨op, target, earlier, hop, rfl, hhere, hbefore⟩
    exact ⟨_, _, rfl, after_eq_loaded.2 ⟨earlier, rfl, hbefore⟩, ⟨op, target, hop, rfl⟩, hhere⟩

/-- A test of a variable is looked at unless the one right before it is. -/
theorem tested_iff_odd (hjumps : e.jumps = true)
    (hline : (e.registered seen).currentLine.isSome = true) :
    (∃ id, tryWithResources.stateAfter e seen = .tested index id) ↔
      testsOf index seen % 2 = 1 := by
  -- Two instructions of the history at a time, as the tests are counted.
  induction seen using testsOf.induct index with
  | case1 op target other earlier htest ih =>
      obtain ⟨hop, rfl⟩ := htest
      have hearlier : (e.registered earlier).currentLine.isSome = true := by
        rwa [e.currentLine_registered rfl, e.currentLine_registered rfl] at hline
      have hhere : (e.registered
          (.jump op target :: .localVar .aload other :: earlier)).jumpHere.isSome = true := by
        rw [e.currentLine_registered rfl] at hline
        rw [e.isSome_jumpHere, hjumps, hline]
        rcases hop with rfl | rfl <;> rfl
      obtain ⟨id, hid⟩ := Option.isSome_iff_exists.1 hhere
      have hnext : (∃ id, tryWithResources.stateAfter e
            (.jump op target :: .localVar .aload other :: earlier) = .tested other id) ↔
          ¬∃ id, tryWithResources.stateAfter e earlier = .tested other id := by
        constructor
        · rintro ⟨id, hid⟩ ⟨id', hid'⟩
          obtain ⟨_, _, _, _, hseen, -, hbefore⟩ := after_eq_tested.1 hid
          cases hseen
          exact hbefore id' hid'
        · intro hbefore
          exact ⟨id, after_eq_tested.2 ⟨op, target, earlier, hop, rfl, hid, not_exists.1 hbefore⟩⟩
      rw [hnext, ih hearlier, testsOf, if_pos ⟨hop, rfl⟩]
      omega
  | case2 op target other earlier htest =>
      rw [testsOf, if_neg htest]
      refine iff_of_false ?_ nofun
      rintro ⟨id, hid⟩
      obtain ⟨_, _, _, hop, hseen, -⟩ := after_eq_tested.1 hid
      cases hseen
      exact htest ⟨hop, rfl⟩
  | case3 seen hother =>
      rw [testsOf]
      · refine iff_of_false ?_ nofun
        rintro ⟨id, hid⟩
        obtain ⟨op, target, earlier, -, rfl, -⟩ := after_eq_tested.1 hid
        exact hother op target index earlier rfl
      · exact hother

theorem after_eq_reloaded : tryWithResources.stateAfter e seen = .reloaded id ↔
    ∃ index earlier, seen = .localVar .aload index :: earlier ∧
      tryWithResources.stateAfter e earlier = .tested index id := by
  refine (tryWithResources.stateAfter_eq_iff (by nofun) fun _ _ _ => step_eq_reloaded).trans ?_
  constructor
  · rintro ⟨_, earlier, rfl, index, htested, rfl⟩
    exact ⟨index, earlier, rfl, htested⟩
  · rintro ⟨index, earlier, rfl, htested⟩
    exact ⟨_, earlier, rfl, index, htested, rfl⟩

/-- A word is found if an even number of tests stands right before it. -/
theorem finds : Filter.tryWithResources.Finds e fun earlier before jump after =>
    ∃ index, Closing index before jump after ∧ testsOf index earlier % 2 = 0 := by
  intro seen id
  refine (tryWithResources.askedAfter_eq_iff (by nofun) fun _ _ _ => step_asks).trans ?_
  have hparity {op : Opcode} {target : Label} {index : UInt16} {earlier : List Instruction}
      (hhere : (e.registered
        (.jump op target :: .localVar .aload index :: earlier)).jumpHere = some id) :
      (∀ id', tryWithResources.stateAfter e earlier ≠ .tested index id') ↔
        testsOf index earlier % 2 = 0 := by
    have hsome := e.isSome_jumpHere (.jump op target) (.localVar .aload index :: earlier)
    rw [hhere, e.currentLine_registered rfl] at hsome
    have hregistered : e.jumps = true ∧ (e.registered earlier).currentLine.isSome = true := by
      simp_all
    rw [← not_exists, tested_iff_odd hregistered.1 hregistered.2]
    omega
  constructor
  · rintro ⟨_, _, rfl, hreloaded, hcloses⟩
    obtain ⟨index, _, rfl, htested⟩ := after_eq_reloaded.1 hreloaded
    obtain ⟨op, target, earlier, hop, rfl, hhere, hbefore⟩ := after_eq_tested.1 htested
    obtain ⟨call, owner, onInterface, hcall, rfl⟩ := closes_iff.1 hcloses
    exact ⟨_, _, _, earlier, ⟨index, .word hop hcall target owner onInterface,
      (hparity hhere).1 hbefore⟩, rfl, hhere⟩
  · rintro ⟨before, jump, after, earlier, ⟨index, hword, heven⟩, rfl, hhere⟩
    cases hword with
    | word hop hcall target owner onInterface =>
        have htested := after_eq_tested.2
          ⟨_, target, earlier, hop, rfl, hhere, (hparity hhere).2 heven⟩
        exact ⟨_, _, rfl, after_eq_reloaded.2 ⟨index, _, rfl, htested⟩,
          closes_iff.2 ⟨_, owner, onInterface, hcall, rfl⟩⟩

end Noise.TryWithResources

namespace Scan

/-- The test of a resource is retracted if an even number of tests of the same variable stands right
before it; most often there is none. -/
theorem retracted_iff_closing (e : Enumeration) (code : List Instruction) :
    (pass e code [Matcher.start tryWithResources]).bare = pass e code [] ∧
      (∀ marker ∈ (pass e code [Matcher.start tryWithResources]).markers,
        marker.retracted = false) ∧
      (∀ site ∈ (pass e code [Matcher.start tryWithResources]).switches,
        site.retracted = false ∧ site.defaultRetracted = false) ∧
      ∀ site ∈ (pass e code [Matcher.start tryWithResources]).jumps,
        (site.retracted = true ↔ ∃ pre before jump after post index,
          Closing index before jump after ∧ code = pre ++ before ++ jump :: after ++ post ∧
            site.index = (pre ++ before).length ∧ testsOf index pre.reverse % 2 = 0) := by
  have hfilter : Filter.tryWithResources ∈ Filter.ofJumps := by decide
  refine ⟨bare_pass .., markers_of_jumps hfilter, switches_of_jumps hfilter, fun site hsite => ?_⟩
  refine (TryWithResources.finds.retracted_iff hsite).trans ?_
  constructor
  · rintro ⟨pre, before, jump, after, post, ⟨index, hword, heven⟩, hcode, hindex⟩
    exact ⟨pre, before, jump, after, post, index, hword, hcode, hindex, heven⟩
  · rintro ⟨pre, before, jump, after, post, index, hword, hcode, hindex, heven⟩
    exact ⟨pre, before, jump, after, post, ⟨index, hword, heven⟩, hcode, hindex⟩

/-- A resource that is tested against null twice. -/
def testedTwice : List Instruction :=
  [.line 1, .localVar .aload 0, .jump .ifnull ⟨0⟩, .localVar .aload 0, .jump .ifnull ⟨0⟩,
   .localVar .aload 0, .method .invokeinterface "java/lang/AutoCloseable" "close" "()V" true,
   .label ⟨0⟩, .simple .returnVoid]

/-- The second test closes the resource, and is kept. -/
theorem kept_testedTwice : ∃ site ∈
      (pass ⟨true, true⟩ testedTwice [Matcher.start tryWithResources]).jumps,
    site.retracted = false ∧ ∃ pre before jump after post index, Closing index before jump after ∧
      testedTwice = pre ++ before ++ jump :: after ++ post ∧
        site.index = (pre ++ before).length := by
  have hword : Closing 0 [.localVar .aload 0] (.jump .ifnull ⟨0⟩)
      [.localVar .aload 0, .method .invokeinterface "java/lang/AutoCloseable" "close" "()V" true] :=
    .word (.inl rfl) (.inl rfl) ⟨0⟩ "java/lang/AutoCloseable" true
  exact ⟨⟨4, 1, false⟩, by decide, rfl, [.line 1, .localVar .aload 0, .jump .ifnull ⟨0⟩], _, _, _,
    [.label ⟨0⟩, .simple .returnVoid], 0, hword, rfl, rfl⟩

end Scan

end BytecodeCoverage
