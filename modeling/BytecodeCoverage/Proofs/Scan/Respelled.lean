import BytecodeCoverage.Proofs.Code.Respelled
import BytecodeCoverage.Session.Instrument

/-!
# Scanning respelled code

A pass asks of a switch for its keys and, for the filters, for its default.  Both spellings answer
alike, so the pass registers and retracts the same.

**Results.**
* `Filter.step_respelled`: no pattern tells the spellings apart.
* `Options.scan_respelled`: both spellings of a method have the same scan.
-/

namespace BytecodeCoverage

/-- A method of a class, respelled with its class. -/
structure Scope.Respelled (scope scope' : Scope) : Prop where
  cls : scope.cls.Respelled scope'.cls
  method : scope.method.Respelled scope'.method

/-! ## One instruction -/

variable {insn insn' : Instruction}

/-- No pattern tells the spellings apart. -/
theorem Filter.step_respelled (filter : Filter) (h : insn.Respelled insn')
    (state : filter.pattern.State) (ledger : Ledger) :
    filter.pattern.step state insn' ledger = filter.pattern.step state insn ledger := by
  cases h with
  | same => rfl
  | switch => cases filter <;> cases state <;> rfl

/-- Both spellings are registered alike. -/
theorem Enumeration.observe_respelled (e : Enumeration) (index : Nat) (h : insn.Respelled insn')
    (ledger : Ledger) : e.observe index insn' ledger = e.observe index insn ledger := by
  cases h <;> rfl

namespace Matcher

/-- A matcher of a filter of the library. -/
def OfFilter (m : Matcher) : Prop :=
  ∃ filter : Filter, m.pattern = filter.pattern

theorem OfFilter.observe_respelled {m : Matcher} (hm : m.OfFilter) (h : insn.Respelled insn')
    (ledger : Ledger) : m.observe insn' ledger = m.observe insn ledger := by
  obtain ⟨pattern, state⟩ := m
  obtain ⟨filter, hfilter⟩ := hm
  dsimp only at hfilter
  subst hfilter
  simp only [observe, step, filter.step_respelled h]

/-- The matchers see both spellings alike, and remain matchers of filters. -/
theorem observeAll_respelled {matchers : List Matcher} (hmatchers : ∀ m ∈ matchers, m.OfFilter)
    (h : insn.Respelled insn') (ledger : Ledger) :
    observeAll insn' matchers ledger = observeAll insn matchers ledger ∧
      ∀ m ∈ (observeAll insn matchers ledger).1, m.OfFilter := by
  induction matchers generalizing ledger with
  | nil => exact ⟨rfl, nofun⟩
  | cons m rest ih =>
      obtain ⟨hm, hrest⟩ := List.forall_mem_cons.1 hmatchers
      obtain ⟨hsame, hlater⟩ := ih hrest (m.observe insn ledger).2
      constructor
      · simp only [observeAll, hm.observe_respelled h, hsame]
      · exact List.forall_mem_cons.2 ⟨hm, hlater⟩

end Matcher

/-! ## The pass -/

namespace Scan

variable {code code' : List Instruction} {matchers : List Matcher}

theorem passFrom_respelled (e : Enumeration) (h : List.Forall₂ Instruction.Respelled code code')
    (hmatchers : ∀ m ∈ matchers, m.OfFilter) (index : Nat) (ledger : Ledger) :
    passFrom e index code' matchers ledger = passFrom e index code matchers ledger := by
  induction h generalizing matchers index ledger with
  | nil => rfl
  | @cons insn insn' _ _ hinsn _ ih =>
      obtain ⟨hsame, hlater⟩ := Matcher.observeAll_respelled hmatchers hinsn
        (e.observe index insn ledger)
      simp only [passFrom, e.observe_respelled index hinsn, hsame]
      exact ih hlater _ _

end Scan

/-! ## The scan of a method -/

namespace Scope.Respelled

variable {scope scope' : Scope}

theorem calls_eq (h : scope.Respelled scope') (owner name : String) :
    scope'.calls owner name = scope.calls owner name := by
  have hbody := h.method.body
  unfold Scope.calls
  generalize scope.method.body = body at hbody
  generalize scope'.method.body = body' at hbody
  cases hbody with
  | none => rfl
  | @some body body' hbody =>
      have hcode := hbody.code
      dsimp only
      generalize body.code = code at hcode
      generalize body'.code = code' at hcode
      induction hcode with
      | nil => rfl
      | cons hinsn _ ih =>
          rw [List.any_cons, List.any_cons, ih]
          cases hinsn <;> rfl

/-- The same filters are looked for. -/
theorem applicable_eq (h : scope.Respelled scope') (filters : List Filter) :
    Filter.applicable filters scope' = Filter.applicable filters scope := by
  have hfields : scope'.cls.fields = scope.cls.fields := by rw [h.cls.same]
  have happlies (filter : Filter) :
      filter.pattern.applies scope' = filter.pattern.applies scope := by
    cases filter <;> try rfl
    · simp only [Filter.pattern, Noise.assertions, ClassFile.field?, hfields]
    · simp only [Filter.pattern, Noise.defaultArgs, Method.isStatic, h.method.access, h.method.name]
    · simp only [Filter.pattern, Noise.unsupportedCall, h.method.name]
    · simp only [Filter.pattern, Noise.coroutines, h.calls_eq]
  simp only [Filter.applicable, happlies]

end Scope.Respelled

/-- Both spellings of a method have the same scan. -/
theorem Options.scan_respelled (options : Options) (filters : List Filter) {scope scope' : Scope}
    (hscope : scope.Respelled scope') {body body' : Body} (hbody : body.Respelled body') :
    options.scan filters scope' body' = options.scan filters scope body := by
  have hinitializer : scope'.method.isInitializer = scope.method.isInitializer := by
    rw [Method.isInitializer, hscope.method.name, Method.isInitializer]
  unfold Options.scan Scan.ofMethod
  rw [hscope.applicable_eq]
  simp only [Enumeration.forMethod, hinitializer]
  generalize Filter.applicable _ scope = used
  unfold Scan.pass
  rw [Scan.passFrom_respelled _ hbody.code fun m hm => ?_]
  obtain ⟨filter, -, rfl⟩ := List.mem_map.1 hm
  exact ⟨filter, rfl⟩

end BytecodeCoverage
