import BytecodeCoverage.Class.Model
import BytecodeCoverage.Text.Blank

/-!
# Options of a session

An option text is a list of entries `key=value` with commas between them. Blanks around entries,
keys and values do not matter, and blank entries are skipped. Every entry must be understood:
one that is not makes the whole text an error. Of several entries with one key the last counts.
-/

namespace BytecodeCoverage

/-- What a counter records: the number of executions, or whether there was one. -/
inductive HitMode
  | count
  | flag
  deriving DecidableEq

/-- How instrumented code gets hold of the counters of its class. -/
inductive Strategy
  /-- From a static field, filled once by the class initializer. -/
  | field
  /-- From the registry, at each start of a method, kept in a local variable. -/
  | localVar
  /-- From a constant that is computed on first use. -/
  | constant
  deriving DecidableEq

/-- Settings of a session. -/
structure Options where
  /-- Record jumps and switches besides lines. -/
  branches : Bool := true
  hits : HitMode := .count
  /-- Record the number of instructions of each line. -/
  instructions : Bool := false
  /-- Keep traces of the lines that tests execute. -/
  tracking : Bool := false
  strategy : Strategy := .field
  /-- Look for compiler noise. -/
  filters : Bool := true
  /-- Instrument generated methods too. -/
  synthetic : Bool := false
  deriving DecidableEq

/-- The name of a hit mode. -/
def HitMode.name : HitMode → String
  | .count => "count"
  | .flag => "flag"

/-- The hit mode with a given name. -/
def HitMode.ofName? : String → Option HitMode
  | "count" => some .count
  | "flag" => some .flag
  | _ => none

namespace Strategy

/-- The name of a strategy. -/
def name : Strategy → String
  | .field => "field"
  | .localVar => "local"
  | .constant => "constant"

/-- The strategy with a given name. -/
def ofName? : String → Option Strategy
  | "field" => some .field
  | "local" => some .localVar
  | "constant" => some .constant
  | _ => none

end Strategy

/-- Why an entry is not understood. -/
inductive OptionFault
  | noValue (entry : String)
  | notBoolean (key value : String)
  | unknownHitMode (value : String)
  | unknownStrategy (value : String)
  | unknownKey (key : String)

instance : Fault OptionFault where
  kind _ := .config
  detail
    | .noValue entry => "expected key=value, got '" ++ entry ++ "'"
    | .notBoolean key value => "'" ++ value ++ "' is not a boolean value for '" ++ key ++ "'"
    | .unknownHitMode value => "unknown hit mode '" ++ value ++ "'"
    | .unknownStrategy value => "unknown counter strategy '" ++ value ++ "'"
    | .unknownKey key => "unknown option '" ++ key ++ "'"

/-- One entry of an option text. -/
inductive Setting
  | branches (on : Bool)
  | instructions (on : Bool)
  | tracking (on : Bool)
  | filters (on : Bool)
  | synthetic (on : Bool)
  | hits (mode : HitMode)
  | strategy (chosen : Strategy)
  deriving DecidableEq

namespace Setting

/-- Reads a truth value. -/
def bool (key value : String) : Except OptionFault Bool :=
  match value with
  | "true" | "yes" | "on" | "1" => .ok true
  | "false" | "no" | "off" | "0" => .ok false
  | _ => .error (.notBoolean key value)

/-- Reads a value for a key. -/
def ofPair (key value : String) : Except OptionFault Setting :=
  match key with
  | "branches" => (bool key value).map .branches
  | "instructions" => (bool key value).map .instructions
  | "tracking" => (bool key value).map .tracking
  | "filters" => (bool key value).map .filters
  | "synthetic" => (bool key value).map .synthetic
  | "hits" =>
      match HitMode.ofName? value with
      | some mode => .ok (.hits mode)
      | none => .error (.unknownHitMode value)
  | "strategy" =>
      match Strategy.ofName? value with
      | some chosen => .ok (.strategy chosen)
      | none => .error (.unknownStrategy value)
  | _ => .error (.unknownKey key)

/-- Reads an entry that has no blanks around it. -/
def ofEntry (entry : List Char) : Except OptionFault Setting :=
  match Text.cutAt? '=' entry with
  | some (key, value) =>
      ofPair (String.ofList (Text.trim key)) (String.ofList (Text.trim value))
  | none => .error (.noValue (String.ofList entry))

/-- Puts a setting into effect. -/
def apply (options : Options) : Setting → Options
  | .branches on => { options with branches := on }
  | .instructions on => { options with instructions := on }
  | .tracking on => { options with tracking := on }
  | .filters on => { options with filters := on }
  | .synthetic on => { options with synthetic := on }
  | .hits mode => { options with hits := mode }
  | .strategy chosen => { options with strategy := chosen }

end Setting

namespace Options

/-- The entries of an option text, without the blank ones. -/
def entries (text : String) : List (List Char) :=
  ((Text.splitAt (· == ',') text.toList).map Text.trim).filter fun entry => !entry.isEmpty

/-- Reads an option text; the first entry that is not understood is reported. -/
def parse (text : String) : Except OptionFault Options :=
  ((entries text).mapM Setting.ofEntry).map fun settings => settings.foldl Setting.apply {}

/-- The first class-file version with computed constants. -/
def constantsSince : UInt16 := 55

/-- The strategy used for a class. Where there are no computed constants a field takes their
place; an interface cannot have a private mutable field and uses a local variable. -/
def strategyFor (options : Options) (cls : ClassFile) : Strategy :=
  let withField := if cls.isInterface then Strategy.localVar else .field
  match options.strategy with
  | .constant => if cls.major < constantsSince then withField else .constant
  | .field => withField
  | .localVar => .localVar

end Options

end BytecodeCoverage
