import BytecodeCoverage.Proofs.Noise.Unmatched

/-!
# Jumps of assertions

An assertion begins where the toggle is read and ends where the error is created.  The machine
remembers one jump: each conditional jump takes the place of the one before, and the creation of the
error asks for the last one.  So of a condition that is compiled to several jumps all but the last
one are kept.

**Main definitions.**
* `Noise.Assertions.EndsInJump`: code whose last instruction that is executed is a conditional jump.
* `Noise.Assertions.Stays`: code inside an assertion.
* `Noise.Assertions.Asserted`: the jump of a toggle, or the last jump of a condition.

**Results.**
* `Noise.Assertions.after_amid`: when the machine is inside an assertion.
* `Noise.Assertions.finds`: what it finds.
* `Options.retracted_asserted`: the jumps that are retracted in classes with the toggle.
-/

namespace BytecodeCoverage
namespace Noise.Assertions

/-- The error of a failed assertion is created. -/
def creation : Instruction :=
  .type .new "java/lang/AssertionError"

/-- The last instruction of some code that is executed is a conditional jump; `before` comes before
it. -/
def EndsInJump (before code : List Instruction) : Prop :=
  ∃ jump gap, code = before ++ jump :: gap ∧ jump.isConditionalJump = true ∧
    ∀ insn ∈ gap, insn.isExecutable = false

/-- Code that stays inside an assertion, `pre` being the code before the assertion: it neither
leaves the method nor reads the toggle again, and it does not create the error behind a conditional
jump on a line. -/
structure Stays (pre code : List Instruction) : Prop where
  within : ∀ insn ∈ code, leaves insn = false ∧ readsToggle insn = false
  waits : ∀ part rest, code = part ++ creation :: rest → ∀ before, EndsInJump before part →
    Body.markedLines (pre ++ before) = []

/-- At this position of the code stands the jump of a toggle, or the last jump before the error of
an assertion is created. -/
def Asserted (code : List Instruction) (i : Nat) : Prop :=
  (∃ pre read stop post, code = pre ++ read :: .jump .ifne stop :: post ∧
    readsToggle read = true ∧ i = pre.length + 1) ∨
  ∃ pre read stop condition post before,
    code = pre ++ read :: .jump .ifne stop :: (condition ++ creation :: post) ∧
    readsToggle read = true ∧ Stays pre condition ∧ EndsInJump before condition ∧
    i = pre.length + 2 + before.length

/-- Inside an assertion, behind the jump of the toggle. -/
def State.Amid : State → Prop
  | .inAssert | .condJump _ => True
  | .idle | .flag => False

variable {state : State} {insn : Instruction} {ledger : Ledger} {id : JumpId} {e : Enumeration}
  {seen pre condition : List Instruction}

/-! ## One instruction -/

theorem forms_of_readsToggle (h : readsToggle insn = true) :
    insn.isExecutable = true ∧ insn.isConditionalJump = false ∧ leaves insn = false ∧
      insn.isLine = false ∧ insn ≠ creation ∧ insn.isJumpWith .ifne = false := by
  unfold readsToggle at h
  split at h
  · exact ⟨rfl, rfl, rfl, rfl, nofun, rfl⟩
  · cases h

theorem isExecutable_of_isConditionalJump (h : insn.isConditionalJump = true) :
    insn.isExecutable = true ∧ leaves insn = false ∧ readsToggle insn = false ∧
      insn ≠ creation := by
  cases insn with
  | jump op target => exact ⟨rfl, rfl, rfl, nofun⟩
  | _ => cases h

theorem isNew_iff_creation (insn : Instruction) :
    insn.isNew "java/lang/AssertionError" = true ↔ insn = creation :=
  Instruction.isNew_iff

theorem step_eq_flag : (step state insn ledger).1 = .flag ↔ readsToggle insn = true := by
  have hread : readsToggle insn = true → insn.isExecutable = true ∧
      insn.isConditionalJump = false ∧ leaves insn = false ∧ insn.isLine = false ∧
      insn ≠ creation ∧ insn.isJumpWith .ifne = false := forms_of_readsToggle
  have hnew := isNew_iff_creation insn
  cases state <;> grind [step, restart, inside, creation]

theorem isExecutable_of_leaves (h : leaves insn = true) :
    insn.isExecutable = true ∧ insn.isConditionalJump = false := by
  unfold leaves at h
  split at h
  · exact ⟨rfl, rfl⟩
  · cases h

/-- The machine stays inside an assertion. -/
theorem inside_amid (hstate : state.Amid) : (inside state insn ledger).Amid ↔
    leaves insn = false ∧ readsToggle insn = false := by
  have hread := @forms_of_readsToggle insn
  have hleaves := @isExecutable_of_leaves insn
  cases hhere : ledger.jumpHere <;> grind [inside, State.Amid]

theorem step_amid : (step state insn ledger).1.Amid ↔
    (state = .flag ∧ insn.isJumpWith .ifne = true) ∨
      (state.Amid ∧ leaves insn = false ∧ readsToggle insn = false ∧
        ∀ id, state = .condJump id → insn ≠ creation) := by
  have hnew := isNew_iff_creation insn
  have hread := @forms_of_readsToggle insn
  have hinside := @inside_amid state insn ledger
  cases state <;> grind [step, restart, creation, State.Amid]

theorem step_eq_condJump : (step state insn ledger).1 = .condJump id ↔
    (state.Amid ∧ insn.isConditionalJump = true ∧ ledger.jumpHere = some id) ∨
      (state = .condJump id ∧ insn.isExecutable = false) := by
  have hnew := isNew_iff_creation insn
  have hjump := @isExecutable_of_isConditionalJump insn
  have hcreation : creation.isExecutable = true := rfl
  cases hhere : ledger.jumpHere <;> cases state <;>
    grind [step, restart, inside, creation, State.Amid]

theorem step_asks : (step state insn ledger).2 = .jump id ↔
    (state = .flag ∧ insn.isJumpWith .ifne = true ∧ ledger.jumpHere = some id) ∨
      (state = .condJump id ∧ insn = creation) := by
  have hnew := isNew_iff_creation insn
  cases state <;> grind [step, creation, Action.jumpHere]

/-! ## Along a history -/

theorem after_eq_flag : assertions.stateAfter e seen = .flag ↔
    ∃ read earlier, seen = read :: earlier ∧ readsToggle read = true :=
  assertions.stateAfter_eq_iff (by nofun) fun _ _ _ => step_eq_flag

/-- The jump that the machine remembers is the last instruction that was executed. -/
theorem after_eq_condJump : assertions.stateAfter e seen = .condJump id ↔
    ∃ gap jump earlier, seen = gap ++ jump :: earlier ∧
      (∀ insn ∈ gap, insn.isExecutable = false) ∧ jump.isConditionalJump = true ∧
      (e.registered (jump :: earlier)).jumpHere = some id ∧
      (assertions.stateAfter e earlier).Amid := by
  induction seen with
  | nil => simp [Pattern.stateAfter, assertions]
  | cons insn seen ih =>
      refine Iff.trans step_eq_condJump ?_
      constructor
      · rintro (⟨hamid, hjump, hhere⟩ | ⟨hremembers, hinsn⟩)
        · exact ⟨[], insn, seen, rfl, by simp, hjump, hhere, hamid⟩
        · obtain ⟨gap, jump, earlier, rfl, hgap, hrest⟩ := ih.1 hremembers
          exact ⟨insn :: gap, jump, earlier, rfl, List.forall_mem_cons.2 ⟨hinsn, hgap⟩, hrest⟩
      · rintro ⟨gap, jump, earlier, hseen, hgap, hjump, hhere, hamid⟩
        cases gap with
        | nil =>
            obtain ⟨rfl, rfl⟩ := List.cons.inj hseen
            exact .inl ⟨hamid, hjump, hhere⟩
        | cons first gap =>
            obtain ⟨rfl, rfl⟩ := List.cons.inj hseen
            rw [List.forall_mem_cons] at hgap
            exact .inr ⟨ih.2 ⟨gap, jump, earlier, rfl, hgap.2, hjump, hhere, hamid⟩, hgap.1⟩

/-- The history up to some code of an assertion. -/
def historyOf (pre : List Instruction) (read : Instruction) (stop : Label)
    (code : List Instruction) : List Instruction :=
  code.reverse ++ .jump .ifne stop :: read :: pre.reverse

variable {read : Instruction} {stop : Label}

theorem reverse_historyOf (pre : List Instruction) (read : Instruction) (stop : Label)
    (code : List Instruction) :
    (historyOf pre read stop code).reverse = pre ++ read :: .jump .ifne stop :: code := by
  simp [historyOf]

theorem historyOf_concat (insn : Instruction) :
    historyOf pre read stop (condition ++ [insn]) = insn :: historyOf pre read stop condition := by
  simp [historyOf]

/-- Neither the toggle nor its jump is a marker. -/
theorem markedLines_toggled (hread : readsToggle read = true) (before : List Instruction) :
    Body.markedLines (pre ++ read :: .jump .ifne stop :: before) =
      Body.markedLines (pre ++ before) := by
  obtain ⟨-, -, -, hline, -⟩ := forms_of_readsToggle hread
  cases read with
  | line number => cases hline
  | _ => simp only [Body.markedLines_append, Body.markedLines]

/-- A jump on a line is registered. -/
theorem isSome_jumpHere_historyOf (hjumps : e.jumps = true) (hread : readsToggle read = true)
    {before : List Instruction} {jump : Instruction} (hjump : jump.isConditionalJump = true) :
    (e.registered (jump :: historyOf pre read stop before)).jumpHere.isSome = true ↔
      Body.markedLines (pre ++ before) ≠ [] := by
  rw [e.isSome_jumpHere, hjumps, hjump, (e.reads_registered _).currentLine, reverse_historyOf,
    markedLines_toggled hread]
  simp

theorem stays_nil : Stays pre [] :=
  ⟨List.forall_mem_nil _, fun part rest hpart => by simp at hpart⟩

/-- Code that stays inside an assertion, one instruction more. -/
theorem stays_concat : Stays pre (condition ++ [insn]) ↔ Stays pre condition ∧
    leaves insn = false ∧ readsToggle insn = false ∧
      (insn = creation → ∀ before, EndsInJump before condition →
        Body.markedLines (pre ++ before) = []) := by
  constructor
  · rintro ⟨hwithin, hwaits⟩
    obtain ⟨hleaves, hread⟩ := hwithin insn (by simp)
    refine ⟨⟨fun other hother => hwithin other (by simp [hother]), fun part rest hpart => ?_⟩,
      hleaves, hread, ?_⟩
    · exact hwaits part (rest ++ [insn]) (by simp [hpart])
    · rintro rfl
      exact hwaits condition [] rfl
  · rintro ⟨⟨hwithin, hwaits⟩, hleaves, hread, hlast⟩
    refine ⟨fun other hother => ?_, fun part rest hpart => ?_⟩
    · rcases List.mem_append.1 hother with hother | hother
      · exact hwithin other hother
      · exact List.mem_singleton.1 hother ▸ ⟨hleaves, hread⟩
    · rcases List.eq_nil_or_concat rest with rfl | ⟨rest, last, rfl⟩
      · obtain ⟨rfl, hinsn⟩ := List.append_inj' hpart rfl
        exact hlast (List.cons.inj hinsn).1
      · rw [List.concat_eq_append, ← List.cons_append, ← List.append_assoc] at hpart
        obtain ⟨rfl, -⟩ := List.append_inj' hpart rfl
        exact hwaits part rest rfl

theorem Stays.of_append {rest : List Instruction} (h : Stays pre (condition ++ rest)) :
    Stays pre condition :=
  ⟨fun insn hinsn => h.within insn (by simp [hinsn]),
    fun part later hpart => h.waits part (later ++ rest) (by simp [hpart])⟩

/-- The jump of the toggle takes the machine into an assertion. -/
theorem amid_toggled (hread : readsToggle read = true) :
    (assertions.stateAfter e (historyOf pre read stop [])).Amid :=
  step_amid.2 (.inl ⟨after_eq_flag.2 ⟨read, pre.reverse, rfl, hread⟩, rfl⟩)

/-- Inside an assertion, the jump that is remembered is the last instruction of the condition that
is executed. -/
theorem exists_of_condJump (hread : readsToggle read = true)
    (h : assertions.stateAfter e (historyOf pre read stop condition) = .condJump id) :
    ∃ before jump gap, condition = before ++ jump :: gap ∧ jump.isConditionalJump = true ∧
      (∀ insn ∈ gap, insn.isExecutable = false) ∧
      (e.registered (jump :: historyOf pre read stop before)).jumpHere = some id := by
  obtain ⟨gap, jump, earlier, hseen, hgap, hjump, hhere, hamid⟩ := after_eq_condJump.1 h
  -- It is not the jump of the toggle, before which the machine is not inside yet.
  have htoggle (heq : .jump .ifne stop :: read :: pre.reverse = jump :: earlier) : False := by
    obtain ⟨-, rfl⟩ := List.cons.inj heq
    have hflag : assertions.stateAfter e (read :: pre.reverse) = .flag :=
      after_eq_flag.2 ⟨read, _, rfl, hread⟩
    rw [hflag] at hamid
    exact hamid
  rcases List.append_eq_append_iff.1 hseen with ⟨more, rfl, hmore⟩ | ⟨more, hcondition, hmore⟩
  · cases more with
    | nil => exact (htoggle hmore).elim
    | cons first more =>
        obtain ⟨rfl, -⟩ := List.cons.inj hmore
        cases hgap (.jump .ifne stop) (by simp)
  · cases more with
    | nil => exact (htoggle hmore.symm).elim
    | cons first more =>
        obtain ⟨rfl, rfl⟩ := List.cons.inj hmore
        refine ⟨more.reverse, jump, gap.reverse, ?_, hjump, by simpa using hgap, ?_⟩
        · rw [← List.reverse_reverse condition, hcondition]
          simp
        · simpa [historyOf] using hhere

/-- The machine is inside an assertion as long as the code stays in it. -/
theorem amid_of_stays (hjumps : e.jumps = true) (hread : readsToggle read = true)
    (h : Stays pre condition) :
    (assertions.stateAfter e (historyOf pre read stop condition)).Amid := by
  induction condition using List.reverseRecOn with
  | nil => exact amid_toggled hread
  | append_singleton condition insn ih =>
      obtain ⟨hcondition, hleaves, hreads, hlast⟩ := stays_concat.1 h
      rw [historyOf_concat]
      refine step_amid.2 (.inr ⟨ih hcondition, hleaves, hreads, fun id hid hinsn => ?_⟩)
      obtain ⟨before, jump, gap, rfl, hjump, hgap, hhere⟩ := exists_of_condJump hread hid
      have hmarked := (isSome_jumpHere_historyOf hjumps hread hjump).1
        (Option.isSome_iff_exists.2 ⟨id, hhere⟩)
      exact hmarked (hlast hinsn before ⟨jump, gap, rfl, hjump, hgap⟩)

/-- The machine is inside an assertion just if a toggle comes before, with code behind it that stays
in the assertion. -/
theorem after_amid (hjumps : e.jumps = true) : (assertions.stateAfter e seen).Amid ↔
    ∃ pre read stop condition, seen = historyOf pre read stop condition ∧
      readsToggle read = true ∧ Stays pre condition := by
  constructor
  · intro hamid
    induction seen with
    | nil => exact hamid.elim
    | cons insn seen ih =>
        rcases step_amid.1 hamid with ⟨hflag, hjump⟩ | ⟨hamid, hleaves, hreads, hwaits⟩
        · obtain ⟨read, earlier, rfl, hread⟩ := after_eq_flag.1 hflag
          obtain ⟨stop, rfl⟩ := Instruction.isJumpWith_iff.1 hjump
          exact ⟨earlier.reverse, read, stop, [], by simp [historyOf], hread, stays_nil⟩
        · obtain ⟨pre, read, stop, condition, rfl, hread, hstays⟩ := ih hamid
          refine ⟨pre, read, stop, condition ++ [insn], (historyOf_concat insn).symm, hread,
            stays_concat.2 ⟨hstays, hleaves, hreads, ?_⟩⟩
          rintro hinsn before ⟨jump, gap, rfl, hjump, hgap⟩
          by_contra hmarked
          have hhere : (e.registered (jump :: historyOf pre read stop before)).jumpHere.isSome =
              true := (isSome_jumpHere_historyOf hjumps hread hjump).2 hmarked
          obtain ⟨id, hid⟩ := Option.isSome_iff_exists.1 hhere
          have hbefore : (assertions.stateAfter e (historyOf pre read stop before)).Amid :=
            amid_of_stays hjumps hread hstays.of_append
          have hsplit : historyOf pre read stop (before ++ jump :: gap) =
              gap.reverse ++ jump :: historyOf pre read stop before := by
            simp [historyOf]
          have hremembers : assertions.stateAfter e
              (historyOf pre read stop (before ++ jump :: gap)) = .condJump id :=
            after_eq_condJump.2 ⟨_, jump, _, hsplit, by simpa using hgap, hjump, hid, hbefore⟩
          exact hwaits id hremembers hinsn
  · rintro ⟨pre, read, stop, condition, rfl, hread, hstays⟩
    exact amid_of_stays hjumps hread hstays

/-! ## What is asked for -/

/-- The words of an assertion, each with the code before it, read backwards: the jump of the toggle,
and the last jump before the error is created. -/
inductive Word (earlier : List Instruction) :
    List Instruction → Instruction → List Instruction → Prop
  | toggle {read : Instruction} (hread : readsToggle read = true) (stop : Label) :
      Word earlier [read] (.jump .ifne stop) []
  | condition {pre before gap : List Instruction} {read jump : Instruction} {stop : Label}
      (hearlier : earlier = historyOf pre read stop before) (hread : readsToggle read = true)
      (hstays : Stays pre (before ++ jump :: gap)) (hjump : jump.isConditionalJump = true)
      (hgap : ∀ insn ∈ gap, insn.isExecutable = false) : Word earlier [] jump (gap ++ [creation])

/-- Every word is found. -/
theorem finds : Filter.assertions.Finds e Word := by
  intro seen id
  refine (assertions.askedAfter_eq_iff (by nofun) fun _ _ _ => step_asks).trans ?_
  constructor
  · rintro ⟨_, earlier, rfl, ⟨hflag, hjump, hhere⟩ | ⟨hremembers, rfl⟩⟩
    · obtain ⟨read, earlier, rfl, hread⟩ := after_eq_flag.1 hflag
      obtain ⟨stop, rfl⟩ := Instruction.isJumpWith_iff.1 hjump
      exact ⟨[read], _, [], earlier, .toggle hread stop, rfl, hhere⟩
    · have hjumps : e.jumps = true := by
        obtain ⟨_, jump, before, -, -, -, hhere, -⟩ := after_eq_condJump.1 hremembers
        have hsome := e.isSome_jumpHere jump before
        rw [hhere] at hsome
        simp_all
      have hamid : (assertions.stateAfter e earlier).Amid := by
        rw [hremembers]
        trivial
      obtain ⟨pre, read, stop, condition, rfl, hread, hstays⟩ := (after_amid hjumps).1 hamid
      obtain ⟨before, jump, gap, rfl, hjump, hgap, hhere⟩ := exists_of_condJump hread hremembers
      exact ⟨[], jump, gap ++ [creation], _, .condition rfl hread hstays hjump hgap,
        by simp [historyOf], hhere⟩
  · rintro ⟨before, jump, after, earlier, hword, rfl, hhere⟩
    cases hword with
    | toggle hread stop =>
        exact ⟨_, _, rfl, .inl ⟨after_eq_flag.2 ⟨_, _, rfl, hread⟩, rfl, hhere⟩⟩
    | @condition pre before gap read _ stop hearlier hread hstays hjump hgap =>
        subst hearlier
        have hjumps : e.jumps = true := by
          have hsome := e.isSome_jumpHere jump (historyOf pre read stop before)
          rw [show (e.registered (jump :: historyOf pre read stop before)).jumpHere = some id from
            hhere] at hsome
          simp_all
        refine ⟨creation, gap.reverse ++ jump :: historyOf pre read stop before, by simp,
          .inr ⟨after_eq_condJump.2 ⟨gap.reverse, jump, _, rfl, by simpa using hgap, hjump, hhere,
            amid_of_stays hjumps hread hstays.of_append⟩, rfl⟩⟩

/-- The words stand where the jumps of assertions are. -/
theorem asserted_iff {code : List Instruction} {i : Nat} : Asserted code i ↔
    ∃ pre before jump after post, Word pre.reverse before jump after ∧
      code = pre ++ before ++ jump :: after ++ post ∧ i = (pre ++ before).length := by
  constructor
  · rintro (⟨pre, read, stop, post, rfl, hread, rfl⟩ |
      ⟨pre, read, stop, _, post, before, rfl, hread, hstays, ⟨jump, gap, rfl, hjump, hgap⟩, rfl⟩)
    · exact ⟨pre, [read], _, [], post, .toggle hread stop, by simp, by simp⟩
    · refine ⟨pre ++ read :: .jump .ifne stop :: before, [], jump, gap ++ [creation], post,
        .condition (List.reverse_eq_iff.2 (reverse_historyOf pre read stop before).symm) hread
          hstays hjump hgap, by simp, ?_⟩
      · simp only [List.append_nil, List.length_append, List.length_cons]
        omega
  · rintro ⟨pre, before, jump, after, post, hword, rfl, rfl⟩
    cases hword with
    | @toggle read hread stop => exact .inl ⟨pre, read, stop, post, by simp, hread, by simp⟩
    | @condition start before gap read _ stop hearlier hread hstays hjump hgap =>
        have hpre : pre = start ++ read :: .jump .ifne stop :: before := by
          rw [← List.reverse_reverse pre, hearlier]
          simp [historyOf]
        subst hpre
        refine .inr ⟨start, read, stop, before ++ jump :: gap, post, before, by simp, hread, hstays,
          ⟨jump, gap, rfl, hjump, hgap⟩, ?_⟩
        simp only [List.append_nil, List.length_append, List.length_cons]
        omega

/-- In the condition of an assertion, a jump on a line is the last one if nothing behind it is
executed before the error is created. -/
theorem asserted_condition_iff {pre before rest post : List Instruction} {read jump : Instruction}
    {stop : Label} (hstays : Stays pre (before ++ jump :: rest))
    (hjump : jump.isConditionalJump = true) (hread : readsToggle read = true)
    (hmarked : Body.markedLines (pre ++ before) ≠ []) :
    Asserted (pre ++ read :: .jump .ifne stop :: (before ++ jump :: rest ++ creation :: post))
        (pre.length + 2 + before.length) ↔ ∀ insn ∈ rest, insn.isExecutable = false := by
  constructor
  · rintro (⟨pre', read', stop', post', hcode, hread', hindex⟩ |
      ⟨pre', read', stop', _, post', before', hcode, hread', -, ⟨jump', gap, rfl, -, hgap⟩, hindex⟩)
    · -- The instruction right before the jump does not read the toggle.
      have hparts : (pre ++ read :: .jump .ifne stop :: before) ++
          (jump :: rest ++ creation :: post) = (pre' ++ [read']) ++ .jump .ifne stop' :: post' := by
        simpa using hcode
      obtain ⟨hpre, -⟩ := List.append_inj hparts (by simp; omega)
      have hnoRead : readsToggle read' = false := by
        rcases List.eq_nil_or_concat before with rfl | ⟨before, last, rfl⟩
        · obtain ⟨-, hlast⟩ := List.append_inj'
            (show (pre ++ [read]) ++ [.jump .ifne stop] = pre' ++ [read'] by simpa using hpre) rfl
          rw [← (List.cons.inj hlast).1]
          rfl
        · obtain ⟨-, hlast⟩ := List.append_inj'
            (show (pre ++ read :: .jump .ifne stop :: before) ++ [last] = pre' ++ [read'] by
              simpa using hpre) rfl
          rw [← (List.cons.inj hlast).1]
          exact (hstays.within last (by simp)).2
      rw [hnoRead] at hread'
      cases hread'
    · have hparts : (pre ++ read :: .jump .ifne stop :: before) ++
          (jump :: rest ++ creation :: post) =
            (pre' ++ read' :: .jump .ifne stop' :: before') ++
              (jump' :: gap ++ creation :: post') := by
        simpa using hcode
      obtain ⟨-, htail⟩ := List.append_inj hparts (by simp; omega)
      obtain ⟨rfl, hrest⟩ := List.cons.inj htail
      rcases List.append_eq_append_iff.1 hrest with ⟨more, rfl, hmore⟩ | ⟨more, rfl, hmore⟩
      · exact fun insn hinsn => hgap insn (by simp [hinsn])
      · cases more with
        | nil => simpa using hgap
        | cons first more =>
            -- Otherwise the error would be created in the condition.
            obtain ⟨rfl, -⟩ := List.cons.inj hmore
            exact absurd (hstays.waits (before ++ jump :: gap) more (by simp) before
              ⟨jump, gap, rfl, hjump, hgap⟩) hmarked
  · intro hrest
    exact .inr ⟨pre, read, stop, _, post, before, rfl, hread, hstays,
      ⟨jump, rest, rfl, hjump, hrest⟩,
      rfl⟩

end Noise.Assertions

open Noise Noise.Assertions in
/-- In a class with the toggle, the jumps of toggles are retracted, and of the jumps of a condition
the last one is, if nothing is executed between it and the creation of the error. Without other
filters no other jumps are retracted. -/
theorem Options.retracted_asserted {options : Options} (hfilters : options.filters = true)
    {filters : List Filter} (hfilter : .assertions ∈ filters) {scope : Scope}
    (htoggle : (scope.cls.field? toggle).isSome = true) {body : Body} {site : JumpSite}
    (hsite : site ∈ (options.scan filters scope body).jumps) :
    (Asserted body.code site.index → site.retracted = true) ∧
      (filters = [.assertions] → (site.retracted = true ↔ Asserted body.code site.index)) ∧
      ∀ pre read stop before jump rest post,
        body.code =
          pre ++ read :: .jump .ifne stop :: (before ++ jump :: rest ++ creation :: post) →
        readsToggle read = true → Stays pre (before ++ jump :: rest) →
        (site.index = pre.length + 1 → Asserted body.code site.index) ∧
          (site.index = pre.length + 2 + before.length →
            (Asserted body.code site.index ↔ ∀ insn ∈ rest, insn.isExecutable = false)) := by
  rw [options.scan_filters hfilters] at hsite
  have happlies : Filter.assertions ∈ Filter.applicable filters scope :=
    List.mem_filter.2 ⟨hfilter, htoggle⟩
  have hretracted (h : Asserted body.code site.index) : site.retracted = true := by
    obtain ⟨pre, before, jump, after, post, hword, hcode, hindex⟩ := asserted_iff.1 h
    exact finds.retracted_of_word happlies hsite hword hcode hindex
  refine ⟨hretracted, fun halone => ?_, ?_⟩
  · have hsingle : Filter.applicable filters scope = [.assertions] := by
      rw [halone]
      exact List.filter_eq_self.2 (List.forall_mem_singleton.2 htoggle)
    rw [hsingle] at hsite
    exact (finds.retracted_iff hsite).trans asserted_iff.symm
  · intro pre read stop before jump rest post hcode hread hstays
    refine ⟨fun hindex => .inl ⟨pre, read, stop, _, hcode, hread, hindex⟩, fun hindex => ?_⟩
    obtain ⟨op, target, hinsn, hjump, hline⟩ := Scan.exists_conditionalJump hsite
    have hsplit : body.code = (pre ++ read :: .jump .ifne stop :: before) ++
        jump :: (rest ++ creation :: post) := by
      simp [hcode]
    have hlength : site.index = (pre ++ read :: .jump .ifne stop :: before).length := by
      rw [hindex, List.length_append, List.length_cons, List.length_cons]
      omega
    rw [hsplit, hlength, List.getElem?_append_right (Nat.le_refl _), Nat.sub_self] at hinsn
    obtain rfl := Option.some.inj hinsn
    have hmarked : Body.markedLines (pre ++ before) ≠ [] := by
      intro hnone
      rw [Body.lineBefore, hsplit, hlength, List.take_left, markedLines_toggled hread,
        hnone] at hline
      cases hline
    rw [hcode, hindex]
    exact asserted_condition_iff hstays hjump hread hmarked

/-! ## An assertion with two conditions -/

namespace Checked

/-- What `assert a && b` is compiled to. -/
def condition : List Instruction :=
  [.localVar .iload 0, .jump .ifeq ⟨0⟩, .localVar .iload 1, .jump .ifne ⟨1⟩, .label ⟨0⟩]

/-- The code behind the creation of the error. -/
def post : List Instruction :=
  [.simple .dup, .method .invokespecial "java/lang/AssertionError" "<init>" "()V" false,
    .simple .athrow, .label ⟨1⟩, .line 2, .simple .returnVoid]

def body : Body :=
  .ofParts ([.line 1] ++ .field .getstatic "demo/Checked" "$assertionsDisabled" "Z" ::
    .jump .ifne ⟨1⟩ :: (condition ++ Noise.Assertions.creation :: post)) [] 2 2

def method : Method where
  name := "check"
  descriptor := "(II)V"
  access := ⟨0x9⟩
  body := some body

def cls : ClassFile :=
  { ClassFile.ofMethod "demo/Checked" method with
    fields := [⟨"$assertionsDisabled", "Z", ⟨0x1018⟩, none⟩] }

def scan : Scan :=
  ({} : Options).scan Filter.standard ⟨cls, method⟩ body

theorem jumps_scan : scan.jumps = [⟨2, 1, true⟩, ⟨4, 1, false⟩, ⟨6, 1, true⟩] := by
  with_unfolding_all rfl

open Noise.Assertions in
theorem stays_condition : Stays [.line 1] condition := by
  have hforms : ∀ insn ∈ condition, insn ≠ creation ∧ leaves insn = false ∧
      readsToggle insn = false := by
    have hall : ∀ insn ∈ condition, insn.isNew "java/lang/AssertionError" = false ∧
        leaves insn = false ∧ readsToggle insn = false := by
      decide
    exact fun insn hinsn => ⟨by rintro rfl; exact absurd (hall _ hinsn).1 (by decide),
      (hall insn hinsn).2⟩
  refine ⟨fun insn hinsn => (hforms insn hinsn).2, fun part rest hpart => ?_⟩
  exact absurd rfl (hforms creation (by simp [hpart])).1

end Checked

/-- The first jump of the condition is kept. -/
theorem Options.kept_checked : Checked.body.check = .ok () ∧
    (Checked.cls.field? Noise.Assertions.toggle).isSome = true ∧
    Checked.body.code =
      [.line 1] ++ .field .getstatic "demo/Checked" "$assertionsDisabled" "Z" :: .jump .ifne ⟨1⟩ ::
        (Checked.condition ++ Noise.Assertions.creation :: Checked.post) ∧
    ∃ site ∈ Checked.scan.jumps, 1 + 2 ≤ site.index ∧
      site.index < 1 + 2 + Checked.condition.length ∧ site.retracted = false := by
  refine ⟨by with_unfolding_all rfl, by decide, rfl, ⟨4, 1, false⟩, ?_, by decide, by decide, rfl⟩
  rw [Checked.jumps_scan]
  decide

open Noise Noise.Assertions in
/-- Of the two conditions only the last one is found. -/
theorem Options.retracted_asserted_checked :
    (⟨6, 1, true⟩ : JumpSite) ∈ Checked.scan.jumps ∧ Asserted Checked.body.code 6 ∧
      (⟨4, 1, false⟩ : JumpSite) ∈ Checked.scan.jumps ∧ ¬ Asserted Checked.body.code 4 := by
  have hlast : (⟨6, 1, true⟩ : JumpSite) ∈ Checked.scan.jumps := by
    rw [Checked.jumps_scan]
    decide
  have hfirst : (⟨4, 1, false⟩ : JumpSite) ∈ Checked.scan.jumps := by
    rw [Checked.jumps_scan]
    decide
  have htoggle : (Checked.cls.field? toggle).isSome = true := by decide
  have hstandard : Filter.assertions ∈ Filter.standard := by decide
  have hfilters : ({} : Options).filters = true := rfl
  obtain ⟨-, -, hasserted⟩ := retracted_asserted hfilters hstandard htoggle hlast
  have hcondition := hasserted [.line 1]
    (.field .getstatic "demo/Checked" "$assertionsDisabled" "Z") ⟨1⟩
    [.localVar .iload 0, .jump .ifeq ⟨0⟩, .localVar .iload 1] (.jump .ifne ⟨1⟩) [.label ⟨0⟩]
    Checked.post rfl rfl Checked.stays_condition
  refine ⟨hlast, (hcondition.2 rfl).2 (by decide), hfirst, fun h => ?_⟩
  obtain ⟨hretracted, -, -⟩ := retracted_asserted hfilters hstandard htoggle hfirst
  cases hretracted h

end BytecodeCoverage
