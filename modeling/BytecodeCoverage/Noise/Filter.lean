import BytecodeCoverage.Noise.Conditions
import BytecodeCoverage.Noise.Lines
import BytecodeCoverage.Noise.NullTests
import BytecodeCoverage.Noise.Switches

/-!
# Filters

The patterns of the library, by name. A list of filters says which patterns run side by side and
in which order.
-/

namespace BytecodeCoverage

/-- A pattern of the library. -/
inductive Filter
  | booleanNegation
  | assertions
  | notNull
  | stringSwitch
  | defaultArgs
  | unsupportedCall
  | castGuard
  | lateinit
  | tryWithResources
  | tryFinally
  | closingLine
  | coroutines
  | noBranchMatched
  deriving DecidableEq

namespace Filter

/-- All filters in the order in which they usually run. -/
def standard : List Filter :=
  [.booleanNegation, .assertions, .notNull, .stringSwitch, .defaultArgs, .unsupportedCall,
   .castGuard, .lateinit, .tryWithResources, .tryFinally, .closingLine, .coroutines,
   .noBranchMatched]

/-- The name of a filter. -/
def name : Filter → String
  | .booleanNegation => "boolean-negation"
  | .assertions => "assertions"
  | .notNull => "not-null"
  | .stringSwitch => "string-switch"
  | .defaultArgs => "default-args"
  | .unsupportedCall => "unsupported-call"
  | .castGuard => "cast-guard"
  | .lateinit => "lateinit"
  | .tryWithResources => "try-with-resources"
  | .tryFinally => "try-finally"
  | .closingLine => "closing-line"
  | .coroutines => "coroutines"
  | .noBranchMatched => "no-branch-matched"

/-- The filter with a given name. -/
def ofName? (word : String) : Option Filter :=
  standard.find? fun filter => filter.name == word

/-- The machine of a filter. -/
def pattern : Filter → Pattern
  | .booleanNegation => Noise.booleanNegation
  | .assertions => Noise.assertions
  | .notNull => Noise.notNull
  | .stringSwitch => Noise.stringSwitch
  | .defaultArgs => Noise.defaultArgs
  | .unsupportedCall => Noise.unsupportedCall
  | .castGuard => Noise.castGuard
  | .lateinit => Noise.lateinit
  | .tryWithResources => Noise.tryWithResources
  | .tryFinally => Noise.tryFinally
  | .closingLine => Noise.closingLine
  | .coroutines => Noise.coroutines
  | .noBranchMatched => Noise.noBranchMatched

/-- The filters that are looked for in a method. -/
def applicable (filters : List Filter) (scope : Scope) : List Filter :=
  filters.filter fun filter => filter.pattern.applies scope

theorem ofName?_name (filter : Filter) : ofName? filter.name = some filter := by
  cases filter <;> decide

end Filter

end BytecodeCoverage
