import BytecodeCoverage.Proofs.Scan.Retraction
import BytecodeCoverage.Session.Instrument

/-!
# Scans with and without filters

Filters have no say in what a pass registers and counts: what it registers for an instruction does
not depend on what has been retracted, and patterns can do nothing but retract.  A scan with filters
is therefore the one without them, some of its entries being retracted, and no line, jump, switch or
default outcome survives on account of a filter.

**Main definitions.**
* `Scan.bare`: a scan with every retraction undone.
* `Scan.Thins`: what becomes of a scan by retractions.

**Results.**
* `Enumeration.bare_observe`, `Matcher.bare_observeAll`: one instruction.
* `Scan.passFrom_nil`, `Scan.bare_pass`: the pass, whatever the patterns are.
* `Options.thins_scan`: filters turned on and off.
-/

namespace BytecodeCoverage

/-- A scan with every retraction undone. -/
def Scan.bare (scan : Scan) : Scan :=
  { scan with
    markers := scan.markers.map Marker.bare
    jumps := scan.jumps.map JumpSite.bare
    switches := scan.switches.map SwitchSite.bare }

theorem Marker.bare_of_retracted {marker : Marker} (h : marker.retracted = false) :
    marker.bare = marker := by
  rw [bare, ← h]

theorem JumpSite.bare_of_retracted {site : JumpSite} (h : site.retracted = false) :
    site.bare = site := by
  rw [bare, ← h]

theorem SwitchSite.bare_of_retracted {site : SwitchSite} (h : site.retracted = false)
    (hdefault : site.defaultRetracted = false) : site.bare = site := by
  obtain ⟨index, line, keys, retracted, defaultRetracted⟩ := site
  cases h
  cases hdefault
  rfl

/-! ## One instruction -/

namespace Ledger

variable (ledger : Ledger) (index : Nat)

theorem bare_countInstruction : ledger.countInstruction.bare = ledger.bare.countInstruction := by
  obtain ⟨scan, currentLine, position⟩ := ledger
  cases currentLine <;> rfl

theorem bare_registerLine (line : UInt32) :
    (ledger.registerLine index line).bare = ledger.bare.registerLine index line := by
  simp [registerLine, bare, Marker.bare]

theorem bare_registerJump : (ledger.registerJump index).bare = ledger.bare.registerJump index := by
  obtain ⟨scan, currentLine, position⟩ := ledger
  cases currentLine <;> simp [registerJump, bare, JumpSite.bare]

theorem bare_registerSwitch (keys : List Int32) :
    (ledger.registerSwitch index keys).bare = ledger.bare.registerSwitch index keys := by
  obtain ⟨scan, currentLine, position⟩ := ledger
  cases currentLine <;> simp [registerSwitch, bare, SwitchSite.bare]

end Ledger

namespace Enumeration

variable (e : Enumeration) (index : Nat)

theorem bare_register (insn : Instruction) (ledger : Ledger) :
    (e.register index insn ledger).bare = e.register index insn ledger.bare := by
  cases insn with
  | line number => exact ledger.bare_registerLine index number
  | label placed => rfl
  | jump op target =>
      simp only [register]
      split
      · rw [Ledger.bare_registerJump, Ledger.bare_countInstruction]
      · exact ledger.bare_countInstruction
  | tableSwitch low high otherwise targets | lookupSwitch otherwise keys targets =>
      simp only [register, Instruction.switchKeys?]
      split
      · rw [Ledger.bare_registerSwitch, Ledger.bare_countInstruction]
      · exact ledger.bare_countInstruction
  | _ => exact ledger.bare_countInstruction

/-- What is registered for an instruction does not depend on what has been retracted. -/
theorem bare_observe (insn : Instruction) (ledger : Ledger) :
    (e.observe index insn ledger).bare = e.observe index insn ledger.bare :=
  e.bare_register index insn (ledger.advance index)

end Enumeration

namespace Matcher

theorem bare_observeAll (insn : Instruction) (matchers : List Matcher) (ledger : Ledger) :
    (observeAll insn matchers ledger).2.bare = ledger.bare := by
  induction matchers generalizing ledger with
  | nil => rfl
  | cons m rest ih => exact (ih _).trans (Action.bare_apply _ ledger)

theorem bare_finishAll (matchers : List Matcher) (ledger : Ledger) :
    (finishAll matchers ledger).bare = ledger.bare := by
  induction matchers generalizing ledger with
  | nil => rfl
  | cons m rest ih => exact (ih _).trans (Action.bare_apply _ ledger)

end Matcher

/-! ## The pass -/

namespace Scan

/-- Whatever patterns run alongside, the pass is the one without patterns but for retractions. -/
theorem passFrom_nil (e : Enumeration) (index : Nat) (code : List Instruction)
    (matchers : List Matcher) (ledger : Ledger) :
    passFrom e index code [] ledger.bare =
      ([], (passFrom e index code matchers ledger).2.bare) := by
  -- The ledgers of both passes stay the same but for retractions, in whatever states the patterns are.
  induction code generalizing index matchers ledger with
  | nil => rfl
  | cons insn rest ih =>
      have hobserved : (Matcher.observeAll insn matchers (e.observe index insn ledger)).2.bare =
          e.observe index insn ledger.bare :=
        (Matcher.bare_observeAll insn matchers _).trans (e.bare_observe index insn ledger)
      have hrest := ih (index + 1) (Matcher.observeAll insn matchers (e.observe index insn ledger)).1
        (Matcher.observeAll insn matchers (e.observe index insn ledger)).2
      rw [hobserved] at hrest
      exact hrest

theorem bare_pass (e : Enumeration) (code : List Instruction) (matchers : List Matcher) :
    (pass e code matchers).bare = pass e code [] := by
  have hplain : passFrom e 0 code [] {} = ([], (passFrom e 0 code matchers {}).2.bare) :=
    passFrom_nil e 0 code matchers {}
  have hfinish := Matcher.bare_finishAll (passFrom e 0 code matchers {}).1
    (passFrom e 0 code matchers {}).2
  calc
    (pass e code matchers).bare =
        (Matcher.finishAll (passFrom e 0 code matchers {}).1
          (passFrom e 0 code matchers {}).2).bare.toScan := rfl
    _ = (passFrom e 0 code matchers {}).2.bare.toScan := congrArg Ledger.toScan hfinish
    _ = pass e code [] := by
        rw [pass, hplain]
        rfl

/-! ## What survives -/

/-- The switches that keep a record in which their default has a counter. -/
def survivingDefaults (scan : Scan) : List SwitchSite :=
  scan.survivingSwitches.filter fun site => !site.defaultRetracted

/-- A scan after retractions: they have changed nothing else, and what has survived them would have
survived without them. -/
structure Thins (scan plain : Scan) : Prop where
  bare : scan.bare = plain
  lines : scan.keptLines.Sublist plain.keptLines
  jumps : scan.survivingJumps.Sublist plain.survivingJumps
  switches : (scan.survivingSwitches.map SwitchSite.bare).Sublist plain.survivingSwitches
  defaults : scan.survivingDefaults.Sublist plain.survivingDefaults

/-- Entries that survive do so with every retraction undone. -/
theorem map_filter_sublist {α : Type} {view : α → α} {p q : α → Bool}
    (h : ∀ x, p x = true → q (view x) = true) (l : List α) :
    ((l.filter p).map view).Sublist ((l.map view).filter q) := by
  rw [List.filter_map]
  exact (List.monotone_filter_right l h).map view

theorem filter_sublist_map {α : Type} {view : α → α} {p q : α → Bool}
    (hview : ∀ x, p x = true → view x = x) (h : ∀ x, p x = true → q x = true) (l : List α) :
    (l.filter p).Sublist ((l.map view).filter q) := by
  have hsame : (l.filter p).map view = l.filter p :=
    (List.map_congr_left fun x hx => hview x (List.mem_filter.1 hx).2).trans (List.map_id _)
  rw [← hsame]
  exact map_filter_sublist (fun x hx => (hview x hx).symm ▸ h x hx) l

/-- What survives retractions would survive without them. -/
theorem thins_bare (scan : Scan) : scan.Thins scan.bare := by
  have hlines : scan.keptLines.Sublist scan.bare.keptLines := by
    refine (filter_sublist_map (fun m hm => ?_) (fun m hm => hm) scan.markers).map Marker.line
    exact Marker.bare_of_retracted ((Bool.not_eq_true' _).mp hm)
  have hkeeps (line : UInt32) (h : scan.keepsLine line = true) :
      scan.bare.keepsLine line = true := by
    rw [keepsLine, List.contains_iff_mem] at h ⊢
    exact hlines.subset h
  refine ⟨rfl, hlines, ?_, ?_, ?_⟩
  · refine filter_sublist_map (fun site hsite => ?_) (fun site hsite => ?_) scan.jumps
    · simp only [keepsJump, Bool.and_eq_true, Bool.not_eq_true'] at hsite
      exact JumpSite.bare_of_retracted hsite.1
    · simp only [keepsJump, Bool.and_eq_true] at hsite ⊢
      exact ⟨hsite.1, hkeeps site.line hsite.2⟩
  · refine map_filter_sublist (fun site hsite => ?_) scan.switches
    simp only [keepsSwitch, Bool.and_eq_true] at hsite ⊢
    exact ⟨rfl, hkeeps site.line hsite.2⟩
  · simp only [survivingDefaults, survivingSwitches, List.filter_filter]
    refine filter_sublist_map (fun site hsite => ?_) (fun site hsite => ?_) scan.switches
    · simp only [keepsSwitch, Bool.and_eq_true, Bool.not_eq_true'] at hsite
      exact SwitchSite.bare_of_retracted hsite.2.1 hsite.1
    · simp only [keepsSwitch, Bool.and_eq_true] at hsite ⊢
      exact ⟨hsite.1, hsite.2.1, hkeeps site.line hsite.2.2⟩

end Scan

/-- A scan with filters is the one without filters, some entries being retracted. -/
theorem Options.thins_scan (options : Options) (filters : List Filter) (scope : Scope) (body : Body) :
    (options.scan filters scope body).Thins
      ({ options with filters := false }.scan filters scope body) := by
  have hbare : (options.scan filters scope body).bare =
      ({ options with filters := false } : Options).scan filters scope body :=
    Scan.bare_pass _ _ _
  rw [← hbare]
  exact Scan.thins_bare _

end BytecodeCoverage
