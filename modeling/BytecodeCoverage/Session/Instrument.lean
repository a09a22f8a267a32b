import BytecodeCoverage.Probe.Code
import BytecodeCoverage.Scan.Pass
import BytecodeCoverage.Session.Basic
import BytecodeCoverage.SourceMap.Parser

/-!
# Instrumenting classes

A class is instrumented in three steps. Its methods are scanned, which stops at the first body
with a defect and leaves the class unchanged. Then a record is made from what the scans kept.
Last the methods get their probes, the class gets the members that its counters need, and the
session takes in the record. A class that has such members already is refused.

**Main definitions.**
* `Options.eligible`: the methods that get records.
* `Session.instrument`: instrumenting one class.
-/

namespace BytecodeCoverage

/-- Why a class gets no probes. -/
inductive SkipReason
  | noExecutableCode
  | alreadyInstrumented
  deriving DecidableEq

/-- What becomes of a class. -/
inductive Instrumented
  | probed (cls : ClassFile)
  | skipped (reason : SkipReason)
  /-- The code of the class has a defect. -/
  | unchanged

namespace Options

/-- Whether a method gets records. Generated methods do only on demand, but the bodies of lambdas
and the methods that fill in default arguments always do. -/
def eligible (options : Options) (method : Method) : Bool :=
  method.body.isSome && !method.isBridge &&
    (!method.isSynthetic || options.synthetic || method.isLambda ||
      Noise.endsWith Noise.defaultStubEnding method.name)

/-- The scan of a method; filters take part only if they are turned on. -/
def scan (options : Options) (filters : List Filter) (scope : Scope) (body : Body) : Scan :=
  Scan.ofMethod options.branches (if options.filters then filters else []) scope body

end Options

/-- A scanned method: its place in the class, its body, and what the scan kept. -/
structure ScannedMethod where
  index : Nat
  signature : String
  body : Body
  scan : Scan

namespace ClassFile

/-- Whether a class has members that only instrumented classes have. -/
def isInstrumented (cls : ClassFile) : Bool :=
  (cls.field? Entry.field).isSome || cls.methods.any fun m => m.name == Entry.accessor

/-- Scans the eligible methods among the listed ones, the first of them being at `index` in the
class. Scans that keep no line are left out. -/
def scanFrom (cls : ClassFile) (options : Options) (filters : List Filter) (index : Nat) :
    List Method → Except Body.Defect (List ScannedMethod)
  | [] => .ok []
  | method :: rest =>
      match method.body.filter fun _ => options.eligible method with
      | none => cls.scanFrom options filters (index + 1) rest
      | some body => do
          body.check
          let scan := options.scan filters ⟨cls, method⟩ body
          let others ← cls.scanFrom options filters (index + 1) rest
          if scan.isEmpty then .ok others
          else .ok ({ index, signature := method.signature, body, scan } :: others)

/-- Scans the eligible methods of a class. -/
def scanAll (cls : ClassFile) (options : Options) (filters : List Filter) :
    Except Body.Defect (List ScannedMethod) :=
  cls.scanFrom options filters 0 cls.methods

/-- The record of a class before its methods are looked at. A debug text that is no source map is
not heeded. -/
def blankRecord (cls : ClassFile) : ClassRecord where
  name := cls.name
  sourceFile := cls.sourceFile
  mapping := cls.sourceDebug.bind fun text => (SourceMap.parse text).toOption
  fullyAnalyzed := true

/-- Hands out the slots of the scanned methods, one after the other. -/
def layOut (count : Bool) :
    List ScannedMethod → ClassRecord → ClassRecord × List (ScannedMethod × MethodSlots)
  | [], record => (record, [])
  | m :: rest, record =>
      let (record, slots) := record.assign m.signature m.scan count
      let (record, others) := layOut count rest record
      (record, (m, slots) :: others)

/-- Puts probes into one of the methods. -/
def probeMethod (style : ProbeStyle) (methods : List Method)
    (m : ScannedMethod × MethodSlots) : List Method :=
  methods.modify m.1.index fun method =>
    { method with body := some ((m.1.body.split m.1.scan).fill m.2 style) }

/-- Puts probes into the laid out methods and adds what their counters need. -/
def withProbes (cls : ClassFile) (style : ProbeStyle)
    (laidOut : List (ScannedMethod × MethodSlots)) : ClassFile :=
  style.counters.prepare { cls with methods := laidOut.foldl (probeMethod style) cls.methods }

end ClassFile

namespace Options

/-- The probes for a class. -/
def probeStyle (options : Options) (cls : ClassFile) : ProbeStyle where
  counters := { strategy := options.strategyFor cls, className := cls.name, mode := options.hits }
  traced := if options.tracking then some cls.name else none

end Options

/-- Instruments a class. -/
def Session.instrument (s : Session) (filters : List Filter) (cls : ClassFile) :
    Instrumented × Session :=
  if cls.isInstrumented then (.skipped .alreadyInstrumented, s)
  else
    match cls.scanAll s.options filters with
    | .error _ => (.unchanged, s)
    | .ok scanned =>
        let (record, laidOut) := ClassFile.layOut s.options.instructions scanned cls.blankRecord
        if record.lines.isEmpty then (.skipped .noExecutableCode, s.register record)
        else (.probed (cls.withProbes (s.options.probeStyle cls) laidOut), s.register record)

end BytecodeCoverage
