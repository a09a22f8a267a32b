import BytecodeCoverage.Class.Descriptor
import BytecodeCoverage.Code.Body

/-!
# Classes

Classes with their fields and methods, as they are presented for instrumentation. Access flags
are the sixteen bits of the class-file format; some bits mean different things on classes,
fields and methods.
-/

namespace BytecodeCoverage

/-- Access and property bits. -/
structure Access where
  bits : UInt16
  deriving DecidableEq

namespace Access

/-- Whether every bit of `mask` is set. -/
def has (access : Access) (mask : UInt16) : Bool :=
  access.bits &&& mask == mask

/-- On a class: an interface. -/
def interface : UInt16 := 0x0200

/-- On a member: belongs to the class. -/
def static : UInt16 := 0x0008

/-- On a method: generated to bridge an override. -/
def bridge : UInt16 := 0x0040

/-- Not present in the sources. -/
def synthetic : UInt16 := 0x1000

end Access

/-- A field of a class. -/
structure Field where
  name : String
  descriptor : String
  access : Access
  /-- The value the field starts with, if it is a constant. -/
  constant : Option Constant := none

/-- A method of a class; abstract and native methods have no body. -/
structure Method where
  name : String
  descriptor : String
  access : Access
  body : Option Body

namespace Method

/-- Name and descriptor together identify a method within its class. -/
def signature (method : Method) : String :=
  method.name ++ method.descriptor

/-- The parameters and the result. -/
def parsedDescriptor (method : Method) : Except DescriptorFault MethodDescriptor :=
  MethodDescriptor.parse method.descriptor

/-- The name of class initializers. -/
def initializerName : String := "<clinit>"

/-- Class initializers. -/
def isInitializer (method : Method) : Bool :=
  method.name == initializerName

/-- Constructors. -/
def isConstructor (method : Method) : Bool :=
  method.name == "<init>"

/-- Methods without a receiver. -/
def isStatic (method : Method) : Bool :=
  method.access.has Access.static

/-- Methods generated to bridge an override. -/
def isBridge (method : Method) : Bool :=
  method.access.has Access.bridge

/-- Methods that are not in the sources. -/
def isSynthetic (method : Method) : Bool :=
  method.access.has Access.synthetic

/-- Generated methods that hold the body of a lambda. -/
def isLambda (method : Method) : Bool :=
  method.isSynthetic && "lambda$".toList.isPrefixOf method.name.toList

/-- The local variable of the first parameter; a receiver comes before it. -/
def firstParamSlot (method : Method) : UInt16 :=
  if method.isStatic then 0 else 1

end Method

/-- A class. -/
structure ClassFile where
  name : String
  superName : Option String
  access : Access
  major : UInt16
  sourceFile : Option String
  /-- The text of the debug extension, which may hold a source map. -/
  sourceDebug : Option String
  fields : List Field
  methods : List Method

namespace ClassFile

/-- Interfaces, annotation types included. -/
def isInterface (cls : ClassFile) : Bool :=
  cls.access.has Access.interface

/-- The first method with a name and descriptor. -/
def method? (cls : ClassFile) (name descriptor : String) : Option Method :=
  cls.methods.find? fun m => m.name == name && m.descriptor == descriptor

/-- The first field with a name. -/
def field? (cls : ClassFile) (name : String) : Option Field :=
  cls.fields.find? fun f => f.name == name

end ClassFile

end BytecodeCoverage
