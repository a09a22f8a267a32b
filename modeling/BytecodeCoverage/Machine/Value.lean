import BytecodeCoverage.Class.Model

/-!
# Values and failures of the machine

The machine that runs methods knows integers, texts, the arrays of the registry, and objects of
which nothing is known. Whatever else code may do is a failure that names the instruction.
-/

namespace BytecodeCoverage

namespace Machine

/-- A value on the operand stack or in a local variable. -/
inductive Value
  | int (n : Int32)
  | null
  | text (s : String)
  /-- The counters of a class. -/
  | hits (className : String)
  /-- The trace of a class. -/
  | mask (className : String)
  /-- Some other object. -/
  | object
  deriving DecidableEq, Inhabited

namespace Value

/-- Whether there is no object. -/
def isNull : Value → Bool
  | .null => true
  | _ => false

/-- Whether both are known to be one object. Equal texts are, since constants with one text are
one object; of an object of which nothing is known this cannot be told, and integers are no
objects. -/
def same : Value → Value → Bool
  | .null, .null => true
  | .text a, .text b => a == b
  | .hits a, .hits b => a == b
  | .mask a, .mask b => a == b
  | _, _ => false

/-- A truth value as an integer. -/
def ofBool (b : Bool) : Value :=
  .int (if b then 1 else 0)

end Value

end Machine

/-- Why code stops. -/
inductive MachineFault
  /-- The operand stack holds too little. -/
  | underflow
  /-- A value stands where an integer is needed. -/
  | notInteger (found : Machine.Value)
  /-- The registry is asked for something that is no name. -/
  | notName (found : Machine.Value)
  /-- A constant for counters does not say of which class. -/
  | noCounterClass
  | unknownLabel (label : Label)
  /-- The last instruction goes on. -/
  | fellOff
  /-- There is no such local variable, or no such element of an array. -/
  | beyondEnd
  /-- An instruction or operand that the machine does not know. -/
  | unsupported (what : String)
  | noCode (signature : String)
  | badDescriptor (fault : DescriptorFault)
  | divisionByZero
  | nullPointer
  | thrown
  | stepLimit

instance : Fault MachineFault where
  kind
    | .underflow | .notInteger _ | .notName _ | .noCounterClass | .unknownLabel _ | .fellOff =>
        .malformed
    | .beyondEnd => .outOfBounds
    | .unsupported _ | .noCode _ => .unsupported
    | .badDescriptor fault => Fault.kind fault
    | .divisionByZero | .nullPointer | .thrown | .stepLimit => .execution
  detail
    | .underflow => "operand stack underflow"
    | .notInteger _ => "expected an int, found"
    | .notName _ => "registry called with"
    | .noCounterClass => "counter constant without class argument"
    | .unknownLabel label => "unknown label " ++ label.text
    | .fellOff => "fell off the end of the method"
    | .beyondEnd => ""
    | .unsupported what => what
    | .noCode signature => "no code for " ++ signature
    | .badDescriptor fault => Fault.detail fault
    | .divisionByZero => "division by zero"
    | .nullPointer => "NullPointerException"
    | .thrown => "exception thrown"
    | .stepLimit => "step limit exceeded"

end BytecodeCoverage
