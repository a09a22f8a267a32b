import BytecodeCoverage.Noise.Filter

/-!
# The pass over a method

The pass registers every line marker, every conditional jump after the first marker and every
switch after the first marker, and counts the executable instructions of each line. A class
initializer registers no jumps: the conditional jumps in it are usually toggles of assertions.
The applicable filters run alongside; each sees an instruction right after it is registered.
-/

namespace BytecodeCoverage

/-- What a pass registers besides lines. -/
structure Enumeration where
  jumps : Bool
  switches : Bool

namespace Enumeration

/-- Without `branches` only lines are registered. -/
def forMethod (branches : Bool) (scope : Scope) : Enumeration where
  jumps := branches && !scope.method.isInitializer
  switches := branches

/-- Registers the instruction at `index`. -/
def register (e : Enumeration) (index : Nat) (insn : Instruction) (ledger : Ledger) : Ledger :=
  match insn with
  | .line number => ledger.registerLine index number
  | .label _ => ledger
  | .jump op _ =>
      let ledger := ledger.countInstruction
      if op.isConditionalJump && e.jumps then ledger.registerJump index else ledger
  | insn =>
      let ledger := ledger.countInstruction
      match insn.switchKeys? with
      | some keys => if e.switches then ledger.registerSwitch index keys else ledger
      | none => ledger

/-- Turns to the instruction at `index` and registers it. -/
def observe (e : Enumeration) (index : Nat) (insn : Instruction) (ledger : Ledger) : Ledger :=
  e.register index insn (ledger.advance index)

end Enumeration

namespace Matcher

/-- One instruction further, with the retraction performed. -/
def observe (insn : Instruction) (m : Matcher) (ledger : Ledger) : Matcher × Ledger :=
  let (m, action) := m.step insn ledger
  (m, (action.apply ledger).1)

/-- The matchers see the instruction one after the other. -/
def observeAll (insn : Instruction) : List Matcher → Ledger → List Matcher × Ledger
  | [], ledger => ([], ledger)
  | m :: rest, ledger =>
      let (m, ledger) := m.observe insn ledger
      let (rest, ledger) := observeAll insn rest ledger
      (m :: rest, ledger)

/-- The matchers end one after the other. -/
def finishAll : List Matcher → Ledger → Ledger
  | [], ledger => ledger
  | m :: rest, ledger => finishAll rest ((m.finish ledger).apply ledger).1

end Matcher

namespace Scan

/-- The pass over the instructions from `index` on. -/
def passFrom (e : Enumeration) (index : Nat) :
    List Instruction → List Matcher → Ledger → List Matcher × Ledger
  | [], matchers, ledger => (matchers, ledger)
  | insn :: rest, matchers, ledger =>
      let (matchers, ledger) := Matcher.observeAll insn matchers (e.observe index insn ledger)
      passFrom e (index + 1) rest matchers ledger

/-- The pass over a whole code with the given matchers. -/
def pass (e : Enumeration) (code : List Instruction) (matchers : List Matcher) : Scan :=
  let (matchers, ledger) := passFrom e 0 code matchers {}
  (Matcher.finishAll matchers ledger).toScan

/-- Scans a method's code with the filters that apply to the method. -/
def ofMethod (branches : Bool) (filters : List Filter) (scope : Scope) (body : Body) : Scan :=
  pass (.forMethod branches scope) body.code
    ((Filter.applicable filters scope).map fun filter => Matcher.start filter.pattern)

end Scan

end BytecodeCoverage
