import Mathlib.Data.List.Basic
import BytecodeCoverage.Proofs.Code.Defects
import BytecodeCoverage.Proofs.Code.Forms
import BytecodeCoverage.Proofs.Scan.Requests
import BytecodeCoverage.Session.Instrument

/-!
# Defaults that no case matched

A machine remembers the last switch until it comes to its default label.  There the default is asked
for if the first instruction creates one of the exceptions that say that no case matched.  A switch
that is followed by another one before its default label is forgotten.

**Main definitions.**
* `Noise.NoBranchMatched.ReportsAt`: the code after a switch whose default is asked for.

**Results.**
* `Noise.NoBranchMatched.asks_iff`: what is asked for along a history.
* `Options.defaultRetracted_iff`: the defaults that are retracted by a scan with all filters.
-/

namespace BytecodeCoverage

open Noise

namespace Noise.NoBranchMatched

variable {state : State} {insn : Instruction} {ledger : Ledger} {id : SwitchId} {e : Enumeration}
  {seen : List Instruction} {otherwise : Label}

/-- An instruction creates an exception that says that no case matched. -/
def Reports (insn : Instruction) : Prop :=
  ∃ name ∈ unmatchedExceptions, insn = .type .new name

theorem any_isNew_iff : unmatchedExceptions.any insn.isNew = true ↔ Reports insn := by
  simp [Reports, List.any_eq_true, Instruction.isNew_iff]

theorem isSwitch_iff : insn.isSwitch = false ↔ defaultOf? insn = none := by
  cases insn <;> simp [Instruction.isSwitch, defaultOf?]

theorem isExecutable_iff : insn.isExecutable = false ↔
    (∃ placed, insn = .label placed) ∨ ∃ number, insn = .line number := by
  cases insn <;> simp [Instruction.isExecutable]

/-! What a state becomes, by the form of the instruction. -/

theorem step_of_switch (h : defaultOf? insn = some otherwise) : step state insn ledger =
    match ledger.switchHere with
    | some id => (.switched id otherwise, .nothing)
    | none => (.idle, .nothing) := by
  cases hhere : ledger.switchHere <;> simp [step, h, hhere]

theorem step_label (placed : Label) : step state (.label placed) ledger =
    match state with
    | .switched id otherwise =>
        if placed = otherwise then (.atDefault id, .nothing) else (state, .nothing)
    | _ => (state, .nothing) := by
  cases state <;> rfl

theorem step_line (number : UInt32) : step state (.line number) ledger = (state, .nothing) := by
  cases state <;> rfl

theorem step_of_executable (hdefault : defaultOf? insn = none)
    (hexecutable : insn.isExecutable = true) : step state insn ledger =
    match state with
    | .atDefault id =>
        if unmatchedExceptions.any insn.isNew then (.idle, .switchDefault id) else (.idle, .nothing)
    | _ => (state, .nothing) := by
  cases insn with
  | label placed | line number => cases hexecutable
  | tableSwitch low high otherwise targets | lookupSwitch otherwise keys targets => cases hdefault
  | _ => cases state <;> rfl

/-- An instruction is a switch, a label, a marker, or another executable one. -/
theorem forms (insn : Instruction) : (∃ otherwise, defaultOf? insn = some otherwise) ∨
    (∃ placed, insn = .label placed) ∨ (∃ number, insn = .line number) ∨
      defaultOf? insn = none ∧ insn.isExecutable = true := by
  cases insn <;> simp [defaultOf?, Instruction.isExecutable]

theorem step_eq_switched : (step state insn ledger).1 = .switched id otherwise ↔
    defaultOf? insn = some otherwise ∧ ledger.switchHere = some id ∨
      state = .switched id otherwise ∧ insn.isSwitch = false ∧ insn ≠ .label otherwise := by
  rw [isSwitch_iff]
  rcases forms insn with ⟨other, hdefault⟩ | ⟨placed, rfl⟩ | ⟨number, rfl⟩ | ⟨hdefault, hexecutable⟩
  · rw [step_of_switch hdefault]
    cases hhere : ledger.switchHere <;> grind
  · rw [step_label]
    cases state <;> grind [defaultOf?]
  · rw [step_line]
    grind [defaultOf?]
  · rw [step_of_executable hdefault hexecutable]
    cases state <;> grind [Instruction.isExecutable]

theorem step_eq_atDefault : (step state insn ledger).1 = .atDefault id ↔
    (∃ otherwise, state = .switched id otherwise ∧ insn = .label otherwise) ∨
      state = .atDefault id ∧ insn.isExecutable = false := by
  rcases forms insn with ⟨other, hdefault⟩ | ⟨placed, rfl⟩ | ⟨number, rfl⟩ | ⟨hdefault, hexecutable⟩
  · rw [step_of_switch hdefault]
    cases hhere : ledger.switchHere <;> grind [defaultOf?, isExecutable_iff]
  · rw [step_label]
    cases state <;> grind [Instruction.isExecutable]
  · rw [step_line]
    grind [Instruction.isExecutable]
  · rw [step_of_executable hdefault hexecutable]
    cases state <;> grind [Instruction.isExecutable]

theorem Reports.isExecutable (h : Reports insn) :
    defaultOf? insn = none ∧ insn.isExecutable = true := by
  obtain ⟨name, -, rfl⟩ := h
  exact ⟨rfl, rfl⟩

theorem step_asks : (step state insn ledger).2 = .switchDefault id ↔
    state = .atDefault id ∧ Reports insn := by
  have hform : Reports insn → defaultOf? insn = none ∧ insn.isExecutable = true :=
    Reports.isExecutable
  rcases forms insn with ⟨other, hdefault⟩ | ⟨placed, rfl⟩ | ⟨number, rfl⟩ | ⟨hdefault, hexecutable⟩
  · rw [step_of_switch hdefault]
    cases hhere : ledger.switchHere <;> grind
  · rw [step_label]
    cases state <;> grind [Instruction.isExecutable]
  · rw [step_line]
    grind [Instruction.isExecutable]
  · rw [step_of_executable hdefault hexecutable, ← any_isNew_iff]
    cases state <;> grind

/-! The states along the pattern. -/

theorem after_eq_switched : noBranchMatched.stateAfter e seen = .switched id otherwise ↔
    ∃ between insn before, seen = between ++ insn :: before ∧ defaultOf? insn = some otherwise ∧
      (e.registered (insn :: before)).switchHere = some id ∧
      ∀ other ∈ between, other.isSwitch = false ∧ other ≠ .label otherwise := by
  induction seen with
  | nil => exact iff_of_false nofun (by simp)
  | cons insn earlier ih =>
      refine step_eq_switched.trans ?_
      constructor
      · -- Either the switch is looked at now, or it is still remembered.
        rintro (⟨hdefault, hhere⟩ | ⟨hbefore, hswitch, hlabel⟩)
        · exact ⟨[], insn, earlier, rfl, hdefault, hhere, List.forall_mem_nil _⟩
        · obtain ⟨between, switch, before, rfl, hdefault, hhere, hbetween⟩ := ih.1 hbefore
          exact ⟨insn :: between, switch, before, rfl, hdefault, hhere,
            List.forall_mem_cons.2 ⟨⟨hswitch, hlabel⟩, hbetween⟩⟩
      · rintro ⟨between, switch, before, hseen, hdefault, hhere, hbetween⟩
        cases between with
        | nil =>
            cases hseen
            exact .inl ⟨hdefault, hhere⟩
        | cons other between =>
            cases hseen
            obtain ⟨⟨hswitch, hlabel⟩, hbetween⟩ := List.forall_mem_cons.1 hbetween
            exact .inr
              ⟨ih.2 ⟨between, switch, before, rfl, hdefault, hhere, hbetween⟩, hswitch, hlabel⟩

theorem after_eq_atDefault : noBranchMatched.stateAfter e seen = .atDefault id ↔
    ∃ gap otherwise earlier, seen = gap ++ .label otherwise :: earlier ∧
      noBranchMatched.stateAfter e earlier = .switched id otherwise ∧
      ∀ insn ∈ gap, insn.isExecutable = false := by
  induction seen with
  | nil => exact iff_of_false nofun (by simp)
  | cons insn earlier ih =>
      refine step_eq_atDefault.trans ?_
      constructor
      · rintro (⟨otherwise, hbefore, rfl⟩ | ⟨hbefore, hexecutable⟩)
        · exact ⟨[], otherwise, earlier, rfl, hbefore, List.forall_mem_nil _⟩
        · obtain ⟨gap, otherwise, before, rfl, hswitched, hgap⟩ := ih.1 hbefore
          exact ⟨insn :: gap, otherwise, before, rfl, hswitched,
            List.forall_mem_cons.2 ⟨hexecutable, hgap⟩⟩
      · rintro ⟨gap, otherwise, before, hseen, hswitched, hgap⟩
        cases gap with
        | nil =>
            cases hseen
            exact .inl ⟨otherwise, hswitched, rfl⟩
        | cons other gap =>
            cases hseen
            obtain ⟨hexecutable, hgap⟩ := List.forall_mem_cons.1 hgap
            exact .inr ⟨ih.2 ⟨gap, otherwise, before, rfl, hswitched, hgap⟩, hexecutable⟩

/-- What is asked for: the default of a switch that no other switch follows before the default
label, if the code of the default reports that no case matched. -/
theorem asks_iff : noBranchMatched.askedAfter e seen = .switchDefault id ↔
    ∃ report gap otherwise between insn before, Reports report ∧
      seen = report :: (gap ++ .label otherwise :: (between ++ insn :: before)) ∧
      (∀ other ∈ gap, other.isExecutable = false) ∧
      (∀ other ∈ between, other.isSwitch = false ∧ other ≠ .label otherwise) ∧
      defaultOf? insn = some otherwise ∧ (e.registered (insn :: before)).switchHere = some id := by
  refine (noBranchMatched.askedAfter_eq_iff (by nofun) fun _ _ _ => step_asks).trans ?_
  constructor
  · rintro ⟨report, _, rfl, hdefault, hreports⟩
    obtain ⟨gap, otherwise, _, rfl, hswitched, hgap⟩ := after_eq_atDefault.1 hdefault
    obtain ⟨between, insn, before, rfl, hdefault, hhere, hbetween⟩ := after_eq_switched.1 hswitched
    exact ⟨report, gap, otherwise, between, insn, before, hreports, rfl, hgap, hbetween, hdefault,
      hhere⟩
  · rintro ⟨report, gap, otherwise, between, insn, before, hreports, rfl, hgap, hbetween, hdefault,
      hhere⟩
    have hswitched := after_eq_switched.2 ⟨between, insn, before, rfl, hdefault, hhere, hbetween⟩
    exact ⟨report, _, rfl, after_eq_atDefault.2 ⟨gap, otherwise, _, rfl, hswitched, hgap⟩, hreports⟩

/-! ## The code after a switch -/

/-- The code after a switch comes to the default label before any other switch, and reports there
that no case matched. -/
def ReportsAt (otherwise : Label) (code : List Instruction) : Prop :=
  ∃ between gap report post, code = between ++ .label otherwise :: (gap ++ report :: post) ∧
    (∀ other ∈ between, other.isSwitch = false ∧ other ≠ .label otherwise) ∧
    (∀ other ∈ gap, other.isExecutable = false) ∧ Reports report

/-- If the default label is placed once, it is enough to look at the code from there on, and for
switches before it. -/
theorem reportsAt_iff {between post : List Instruction} (hbetween : .label otherwise ∉ between)
    (hpost : .label otherwise ∉ post) : ReportsAt otherwise (between ++ .label otherwise :: post) ↔
      (∃ report, post.find? Instruction.isExecutable = some report ∧ Reports report) ∧
        ∀ other ∈ between, other.isSwitch = false := by
  constructor
  · rintro ⟨between', gap, report, rest, hsplit, hbetween', hgap, hreports⟩
    obtain ⟨rfl, -, rfl⟩ := (List.append_cons_inj_of_notMem hbetween hpost).1 hsplit
    refine ⟨⟨report, List.find?_eq_some_iff_append.2
      ⟨hreports.isExecutable.2, gap, rest, rfl, fun other hother => ?_⟩, hreports⟩,
      fun other hother => (hbetween' other hother).1⟩
    rw [hgap other hother]
    rfl
  · rintro ⟨⟨report, hfind, hreports⟩, hswitches⟩
    obtain ⟨-, gap, rest, rfl, hgap⟩ := List.find?_eq_some_iff_append.1 hfind
    refine ⟨between, gap, report, rest, rfl, fun other hother => ⟨hswitches other hother, ?_⟩,
      fun other hother => ?_, hreports⟩
    · rintro rfl
      exact hbetween hother
    · simpa using hgap other hother

end Noise.NoBranchMatched

namespace Scan

variable {filters : List Filter} {e : Enumeration} {code pre after : List Instruction}
  {switch : Instruction} {otherwise : Label} {site : SwitchSite}

/-- The default of a switch that is not retracted as a whole is retracted if the code after the
switch reports that no case matched. -/
theorem defaultRetracted_iff_reportsAt (hfilter : Filter.noBranchMatched ∈ filters)
    (hsite : site ∈ (withFilters filters e code).switches) (hkept : site.retracted = false)
    (hcode : code = pre ++ switch :: after) (hindex : site.index = pre.length)
    (hdefault : NoBranchMatched.defaultOf? switch = some otherwise) :
    site.defaultRetracted = true ↔ NoBranchMatched.ReportsAt otherwise after := by
  obtain ⟨insn, seen, id, hseen, hplace, hhere, hretracted, heither⟩ := exists_switch hsite
  obtain ⟨rfl, rfl⟩ := eq_of_suffix_reverse hseen hcode (hplace.symm.trans hindex)
  -- The whole switch is not asked for, so this is about its default.
  have hasked : site.defaultRetracted = true ↔ ∃ upTo, insn :: pre.reverse <:+ upTo ∧
      upTo <:+ code.reverse ∧ noBranchMatched.askedAfter e upTo = .switchDefault id := by
    rw [hkept, Bool.false_or] at heither
    refine heither.trans ⟨?_, ?_⟩
    · rintro ⟨filter, hmem, upTo, hafter, hupTo, hasked | hasked⟩
      · exact absurd (hretracted.2 ⟨filter, hmem, upTo, hafter, hupTo, hasked⟩) (by simp [hkept])
      · obtain rfl := Filter.eq_of_asks_switchDefault hasked
        exact ⟨upTo, hafter, hupTo, hasked⟩
    · rintro ⟨upTo, hafter, hupTo, hasked⟩
      exact ⟨.noBranchMatched, hfilter, upTo, hafter, hupTo, .inr hasked⟩
  have hreverse : code.reverse = after.reverse ++ insn :: pre.reverse := by
    simp [hcode]
  rw [hasked]
  constructor
  · rintro ⟨upTo, -, hupTo, hasked⟩
    obtain ⟨report, gap, otherwise', between, insn', before, hreports, rfl, hgap, hbetween,
      hdefault', hhere'⟩ := NoBranchMatched.asks_iff.1 hasked
    have hsuffix : insn' :: before <:+
        report :: (gap ++ .label otherwise' :: (between ++ insn' :: before)) :=
      ⟨report :: (gap ++ .label otherwise' :: between), by simp⟩
    cases Enumeration.eq_of_switchHere hseen (hsuffix.trans hupTo) hhere hhere'
    obtain rfl := Option.some.inj (hdefault'.symm.trans hdefault)
    obtain ⟨rest, hrest⟩ := hupTo
    refine ⟨between.reverse, gap.reverse, report, rest.reverse, ?_, by simpa using hbetween,
      by simpa using hgap, hreports⟩
    have hafter : after.reverse = rest ++ report :: (gap ++ .label otherwise' :: between) := by
      rw [hreverse] at hrest
      exact List.append_cancel_right (by simpa using hrest.symm)
    rw [← List.reverse_reverse after, hafter]
    simp
  · rintro ⟨between, gap, report, post, rfl, hbetween, hgap, hreports⟩
    refine ⟨report :: (gap.reverse ++ .label otherwise :: (between.reverse ++ insn :: pre.reverse)),
      ⟨report :: (gap.reverse ++ .label otherwise :: between.reverse), by simp⟩,
      ⟨post.reverse, by simp [hreverse]⟩, NoBranchMatched.asks_iff.2 ⟨report, gap.reverse,
        otherwise, between.reverse, insn, pre.reverse, hreports, rfl, by simpa using hgap,
        by simpa using hbetween, hdefault, hhere⟩⟩

end Scan

/-- A scan with some filters runs those that apply to the method. -/
theorem Options.scan_filters (options : Options) (hfilters : options.filters = true)
    (filters : List Filter) (scope : Scope) (body : Body) : options.scan filters scope body =
      Scan.withFilters (Filter.applicable filters scope)
        (.forMethod options.branches scope) body.code := by
  rw [scan, hfilters]
  rfl

/-- A scan with all filters runs those that apply to the method. -/
theorem Options.scan_standard (options : Options) (hfilters : options.filters = true)
    (scope : Scope) (body : Body) : options.scan Filter.standard scope body =
      Scan.withFilters (Filter.applicable Filter.standard scope)
        (.forMethod options.branches scope) body.code :=
  options.scan_filters hfilters Filter.standard scope body

/-- With all filters on, the default of a switch, if it is placed after the switch, is retracted if
it reports that no case matched, and no other switch stands before it. -/
theorem Options.defaultRetracted_iff {options : Options} (hfilters : options.filters = true)
    (scope : Scope) {body : Body} (hvalid : body.check = .ok ()) {site : SwitchSite}
    (hsite : site ∈ (options.scan Filter.standard scope body).switches)
    (hkept : site.retracted = false) {pre between post : List Instruction} {switch : Instruction}
    {otherwise : Label} (hcode : body.code = pre ++ switch :: (between ++ .label otherwise :: post))
    (hindex : site.index = pre.length)
    (hdefault : NoBranchMatched.defaultOf? switch = some otherwise) :
    site.defaultRetracted = true ↔
      (∃ report, post.find? Instruction.isExecutable = some report ∧
        NoBranchMatched.Reports report) ∧
      ∀ other ∈ between, other.isSwitch = false := by
  rw [options.scan_standard hfilters] at hsite
  have hfilter : Filter.noBranchMatched ∈ Filter.applicable Filter.standard scope :=
    List.mem_filter.2 ⟨by decide, rfl⟩
  have hnodup := (Body.sound_of_check hvalid).nodup
  have hsplit : body.code = (pre ++ switch :: between) ++ .label otherwise :: post := by
    simp [hcode]
  rw [Body.placed, hsplit] at hnodup
  obtain ⟨hbefore, hpost⟩ := Body.notMem_of_nodup hnodup
  have hbetween : .label otherwise ∉ between := fun h => hbefore (by simp [h])
  rw [Scan.defaultRetracted_iff_reportsAt hfilter hsite hkept hcode hindex hdefault]
  exact NoBranchMatched.reportsAt_iff hbetween hpost

/-! ## A method with a switch inside another one -/

/-- A class with one method. -/
def ClassFile.ofMethod (name : String) (method : Method) : ClassFile where
  name
  superName := some "java/lang/Object"
  access := ⟨0x21⟩
  major := 52
  sourceFile := none
  sourceDebug := none
  fields := []
  methods := [method]

namespace Nested

/-- Both defaults report that no case matched. -/
def body : Body :=
  .ofParts [.line 1, .localVar .iload 0, .tableSwitch 0 0 ⟨4⟩ [⟨0⟩],
    .label ⟨0⟩, .line 2, .localVar .iload 1, .tableSwitch 0 0 ⟨3⟩ [⟨1⟩],
    .label ⟨1⟩, .line 3, .simple .iconst1, .simple .ireturn,
    .label ⟨3⟩, .type .new "kotlin/NoWhenBranchMatchedException", .simple .dup,
    .method .invokespecial "kotlin/NoWhenBranchMatchedException" "<init>" "()V" false,
    .simple .athrow,
    .label ⟨4⟩, .type .new "kotlin/NoWhenBranchMatchedException", .simple .dup,
    .method .invokespecial "kotlin/NoWhenBranchMatchedException" "<init>" "()V" false,
    .simple .athrow] [] 2 2

def method : Method where
  name := "code"
  descriptor := "(II)I"
  access := ⟨0x9⟩
  body := some body

def scan : Scan :=
  ({} : Options).scan Filter.standard ⟨.ofMethod "demo/Nested" method, method⟩ body

theorem switches_scan : scan.switches =
    [⟨2, 1, [0], false, false⟩, ⟨6, 2, [0], false, true⟩] := by
  with_unfolding_all rfl

end Nested

/-- The default of the inner switch is retracted. -/
theorem Options.defaultRetracted_nested : ({} : Options).filters = true ∧
    Nested.body.check = .ok () ∧
    (⟨6, 2, [0], false, true⟩ : SwitchSite) ∈ Nested.scan.switches ∧
    ∃ pre switch between otherwise post, Nested.body.code =
        pre ++ switch :: (between ++ .label otherwise :: post) ∧
      pre.length = 6 ∧ NoBranchMatched.defaultOf? switch = some otherwise ∧
      (∃ report, post.find? Instruction.isExecutable = some report ∧
        NoBranchMatched.Reports report) ∧
      ∀ other ∈ between, other.isSwitch = false := by
  have hvalid : Nested.body.check = .ok () := by with_unfolding_all rfl
  have hsite : (⟨6, 2, [0], false, true⟩ : SwitchSite) ∈ Nested.scan.switches := by
    rw [Nested.switches_scan]
    decide
  have hcode : Nested.body.code = Nested.body.code.take 6 ++ .tableSwitch 0 0 ⟨3⟩ [⟨1⟩] ::
      ((Nested.body.code.drop 7).take 4 ++ .label ⟨3⟩ :: Nested.body.code.drop 12) := by
    rfl
  exact ⟨rfl, hvalid, hsite, _, _, _, _, _, hcode, rfl, rfl,
    (defaultRetracted_iff rfl _ hvalid hsite rfl hcode rfl rfl).1 rfl⟩

/-- The default of the outer switch is kept, although it reports that no case matched, too. -/
theorem Options.defaultKept_nested : Nested.body.check = .ok () ∧
    (⟨2, 1, [0], false, false⟩ : SwitchSite) ∈ Nested.scan.switches ∧
    ∃ pre switch between otherwise post, Nested.body.code =
        pre ++ switch :: (between ++ .label otherwise :: post) ∧
      pre.length = 2 ∧ NoBranchMatched.defaultOf? switch = some otherwise ∧
      ∃ report, post.find? Instruction.isExecutable = some report ∧
        NoBranchMatched.Reports report := by
  have hsite : (⟨2, 1, [0], false, false⟩ : SwitchSite) ∈ Nested.scan.switches := by
    rw [Nested.switches_scan]
    decide
  have hcode : Nested.body.code = Nested.body.code.take 2 ++ .tableSwitch 0 0 ⟨4⟩ [⟨0⟩] ::
      ((Nested.body.code.drop 3).take 13 ++ .label ⟨4⟩ :: Nested.body.code.drop 17) := by
    rfl
  exact ⟨by with_unfolding_all rfl, hsite, _, _, _, _, _, hcode, rfl, rfl,
    .type .new "kotlin/NoWhenBranchMatchedException", rfl, _, by decide, rfl⟩

end BytecodeCoverage
