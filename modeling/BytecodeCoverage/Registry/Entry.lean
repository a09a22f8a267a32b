import BytecodeCoverage.Code.Instruction
import BytecodeCoverage.Options

/-!
# Entry points of the registry

Instrumented code reaches its counters by the name of its class, through static methods of one
class. This module holds the names of these methods and of the members that an instrumented class
may get.
-/

namespace BytecodeCoverage

namespace Entry

/-- The class that instrumented code calls. -/
def owner : String := "covscope/runtime/HitRegistry"

/-- Gives the counters of a class as numbers. -/
def hits : String := "hitsFor"

/-- Gives the counters of a class as truth values. -/
def flags : String := "flagsFor"

/-- Gives the trace of a class. -/
def trace : String := "traceFor"

/-- Computes a constant that holds the counters of a class as numbers. -/
def hitsConstant : String := "hitsConstant"

/-- Computes a constant that holds the counters of a class as truth values. -/
def flagsConstant : String := "flagsConstant"

/-- The descriptor of methods that compute constants. -/
def constantDescriptor : String :=
  "(Ljava/lang/invoke/MethodHandles$Lookup;Ljava/lang/String;Ljava/lang/Class;" ++
    "Ljava/lang/String;)Ljava/lang/Object;"

/-- The field of an instrumented class that holds its counters. -/
def field : String := "__$hits$"

/-- The method of an instrumented class that fills the field. -/
def accessor : String := "__$hitsInit$"

/-- The descriptor of an array of numbers or of truth values. -/
def arrayDescriptor : HitMode → String
  | .count => "[I"
  | .flag => "[Z"

/-- The descriptor of a method from a class name to an array. -/
def descriptor (mode : HitMode) : String :=
  "(Ljava/lang/String;)" ++ arrayDescriptor mode

/-- Asks for the counters of the class named on the operand stack. -/
def callHits : HitMode → Instruction
  | .count => .invokeStatic owner hits (descriptor .count)
  | .flag => .invokeStatic owner flags (descriptor .flag)

/-- Asks for the trace of the class named on the operand stack. -/
def callTrace : Instruction :=
  .invokeStatic owner trace (descriptor .flag)

/-- A constant that holds the counters of a class. -/
def constant (mode : HitMode) (className : String) : Constant :=
  let bootstrap := match mode with
    | .count => hitsConstant
    | .flag => flagsConstant
  .dynamic field (arrayDescriptor mode) ⟨owner, bootstrap, constantDescriptor⟩ [.string className]

end Entry

end BytecodeCoverage
