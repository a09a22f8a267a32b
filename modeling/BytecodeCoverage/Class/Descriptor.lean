import BytecodeCoverage.Fault
import BytecodeCoverage.Text.Blank

/-!
# Descriptors

The compact type texts of the class-file format, such as `(ILjava/lang/String;[J)V`: reading
them, writing them, and the local variables that parameters take.

Reading is by bytes: in a message about a bad tag the byte is shown as the character with its
number.
-/

namespace BytecodeCoverage

/-- The type of a field, a parameter or a result. -/
inductive FieldType
  | boolean | byte | char | short | int | long | float | double
  /-- An object of a class. -/
  | object (className : String)
  | array (component : FieldType)
  deriving DecidableEq

namespace FieldType

/-- How many local variables a value takes. -/
def width : FieldType → UInt16
  | .long | .double => 2
  | _ => 1

/-- Objects and arrays. -/
def isReference : FieldType → Bool
  | .object _ | .array _ => true
  | _ => false

/-- The written form of a type. -/
def text : FieldType → String
  | .boolean => "Z"
  | .byte => "B"
  | .char => "C"
  | .short => "S"
  | .int => "I"
  | .long => "J"
  | .float => "F"
  | .double => "D"
  | .object className => "L" ++ className ++ ";"
  | .array component => "[" ++ component.text

end FieldType

/-- Why a text is no method descriptor. -/
inductive DescriptorFault
  /-- The text ends where a type or the closing parenthesis should stand. -/
  | ended
  | noOpening (text : String)
  | unterminated (text : String)
  | badTag (tag : UInt8) (text : String)
  | trailing (text : String)

instance : Fault DescriptorFault where
  kind
    | .ended => .outOfBounds
    | _ => .malformed
  detail
    | .ended => ""
    | .noOpening text => "Method descriptor '" ++ text ++ "' does not start with '('"
    | .unterminated text => "Unterminated class type in descriptor '" ++ text ++ "'"
    | .badTag tag text =>
        "Invalid type tag '" ++ (Char.ofNat tag.toNat).toString ++ "' in descriptor '" ++ text ++
          "'"
    | .trailing text => "Trailing characters in method descriptor '" ++ text ++ "'"

/-- The parameters and the result of a method; a method without a result has none. -/
structure MethodDescriptor where
  params : List FieldType
  result : Option FieldType
  deriving DecidableEq

namespace FieldType

/-- The first byte of a character in UTF-8. -/
def leadByte (c : Char) : UInt8 :=
  (String.utf8EncodeChar c).headD 0

/-- Reads one type of the descriptor `whole` at the front of `cs`. -/
def read (whole : String) : List Char → Except DescriptorFault (FieldType × List Char)
  | [] => .error .ended
  | 'Z' :: rest => .ok (.boolean, rest)
  | 'B' :: rest => .ok (.byte, rest)
  | 'C' :: rest => .ok (.char, rest)
  | 'S' :: rest => .ok (.short, rest)
  | 'I' :: rest => .ok (.int, rest)
  | 'J' :: rest => .ok (.long, rest)
  | 'F' :: rest => .ok (.float, rest)
  | 'D' :: rest => .ok (.double, rest)
  | 'L' :: rest =>
      match Text.cutAt? ';' rest with
      | some (name, rest) => .ok (.object (String.ofList name), rest)
      | none => .error (.unterminated whole)
  | '[' :: rest => (read whole rest).map fun (component, rest) => (.array component, rest)
  | c :: _ => .error (.badTag (leadByte c) whole)

/-- Reading a type consumes at least one character. -/
theorem read_length {whole : String} {cs rest : List Char} {type : FieldType}
    (h : read whole cs = .ok (type, rest)) : rest.length < cs.length := by
  fun_induction read whole cs generalizing type rest with
  | case1 => simp at h
  | case10 r name r' hc =>
      obtain ⟨rfl, -⟩ := Text.cutAt?_eq_some_iff.1 hc
      simp only [Except.ok.injEq, Prod.mk.injEq] at h
      simp only [List.length_cons, List.length_append, ← h.2]
      omega
  | case11 => simp at h
  | case12 r ih =>
      cases hr : read whole r with
      | error e => simp [hr, Except.map] at h
      | ok p =>
          simp only [hr, Except.map, Except.ok.injEq, Prod.mk.injEq] at h
          have := @ih p.2 p.1 hr
          simp only [List.length_cons, ← h.2]
          omega
  | case13 => simp at h
  | _ => simp_all

end FieldType

namespace MethodDescriptor

/-- The written form of a descriptor. -/
def text (d : MethodDescriptor) : String :=
  "(" ++ String.join (d.params.map FieldType.text) ++ ")" ++
    match d.result with
    | none => "V"
    | some type => type.text

/-- Reads types up to the closing parenthesis. -/
def readParams (whole : String) (cs : List Char) :
    Except DescriptorFault (List FieldType × List Char) :=
  match cs with
  | [] => .error .ended
  | ')' :: rest => .ok ([], rest)
  | c :: cs =>
      match _h : FieldType.read whole (c :: cs) with
      | .error fault => .error fault
      | .ok (type, rest) =>
          (readParams whole rest).map fun (types, rest) => (type :: types, rest)
termination_by cs.length
decreasing_by exact FieldType.read_length _h

/-- Reads the result; `V` stands for no result. -/
def readResult (whole : String) : List Char → Except DescriptorFault (Option FieldType × List Char)
  | 'V' :: rest => .ok (none, rest)
  | cs => (FieldType.read whole cs).map fun (type, rest) => (some type, rest)

/-- Reads a method descriptor; nothing may follow it. -/
def parse (whole : String) : Except DescriptorFault MethodDescriptor :=
  match whole.toList with
  | '(' :: cs => do
      let (params, rest) ← readParams whole cs
      let (result, rest) ← readResult whole rest
      if rest.isEmpty then .ok ⟨params, result⟩ else .error (.trailing whole)
  | _ => .error (.noOpening whole)

/-- The local variables taken by the parameters. -/
def paramSlots (d : MethodDescriptor) : UInt16 :=
  d.params.foldl (fun sum type => sum + type.width) 0

/-- The first local variable of each parameter, the first one of all being `first`. -/
def paramLocals (d : MethodDescriptor) (first : UInt16) : List UInt16 :=
  go first d.params
where
  /-- The variables of the listed parameters from `slot` on. -/
  go (slot : UInt16) : List FieldType → List UInt16
    | [] => []
    | type :: rest => slot :: go (slot + type.width) rest

end MethodDescriptor

end BytecodeCoverage
