import EndpointDsl.Compilation.Event
import EndpointDsl.Config.Yaml
import EndpointDsl.ExitStatus
import EndpointDsl.Files.Store
import EndpointDsl.Json.Reader
import EndpointDsl.Text.Lines
import EndpointDsl.Wire.Scalar

/-!
Settings of a run.

The command line comes before the environment, the environment before the project file, and the
project file before the defaults.
-/

namespace EndpointDsl

structure Settings where
  /-- The directory that modules are written to. -/
  outputDir : String := "generated"
  /-- Whether the package gets a module of its own. -/
  writeInit : Bool := true
  /-- Whether to stop after analysis. -/
  checkOnly : Bool := false
  deriving DecidableEq, Repr, Inhabited

inductive ConfigError
  | unreadable (path : String) (cause : OsError)
  | undecodable (cause : Text.Utf8Error)
  | malformed (path : String)
  /-- A number or date in the project file is none. -/
  | badScalar (fault : Yaml.ScalarFault)
  /-- The project file holds a value of another kind than a mapping. -/
  | notMapping (path kind : String)
  | invalid
  deriving DecidableEq, Repr

namespace ConfigError

def message : ConfigError → String
  | unreadable path cause => s!"Cannot read project config at {path}: {cause.message}"
  | undecodable cause => s!"Unexpected error: {cause.message}"
  | malformed path => s!"Invalid project config at {path}"
  | badScalar fault => s!"Unexpected error: {fault.message}"
  | notMapping path kind => s!"Project config at {path} must be a mapping (got {kind})"
  | invalid => "Invalid configuration"

def status : ConfigError → ExitStatus
  | undecodable _ => .failure
  | badScalar _ => .failure
  | _ => .configError

end ConfigError

namespace Config

open Wire (Value)
open Yaml (ReadFault ScalarFault)

abbrev Fields := List (String × Value)

/-! ## The project file -/

mutual

/-- The first number of a document that has too many digits. -/
def longNumeral? : Json → Option ScalarFault
  | .int n =>
    let digits := (toString n.natAbs).length
    if Yaml.digitLimit < digits then some (.tooManyDigits digits) else none
  | .array items => longNumeralOfItems? items
  | .object fields => longNumeralOfFields? fields
  | _ => none

def longNumeralOfItems? : List Json → Option ScalarFault
  | [] => none
  | j :: rest => (longNumeral? j).orElse fun _ => longNumeralOfItems? rest

def longNumeralOfFields? : List (String × Json) → Option ScalarFault
  | [] => none
  | (_, j) :: rest => (longNumeral? j).orElse fun _ => longNumeralOfFields? rest

end

/-- The value of a document without too long numbers. -/
def readJson (text : String) : Except ReadFault Value :=
  match Json.read? text with
  | none => .error .malformed
  | some j =>
    match longNumeral? j with
    | some fault => .error (.scalar fault)
    | none => .ok (.ofJson j)

/-- A place for settings in a project, and the format they are written in there. -/
structure ProjectFile where
  name : String
  read : String → Except ReadFault Value

/-- The first of these that exists counts. -/
def projectFiles : List ProjectFile :=
  [⟨"restify.json", readJson⟩, ⟨"restify.yaml", Yaml.read⟩, ⟨"restify.yml", Yaml.read⟩]

/-- The short name of what a value is. -/
def kindName : Value → String
  | .dateTime _ => "datetime"
  | .date _ => "date"
  | v => v.kindName

/-- The settings in a document; one that says nothing has none. -/
def fieldsOf (path : String) : Value → Except ConfigError Fields
  | .null => .ok []
  | .object fields => .ok fields
  | other => .error (.notMapping path (kindName other))

def fieldsOfOctets (file : ProjectFile) (path : String) (bytes : List UInt8) :
    Except ConfigError Fields :=
  match Text.ofUtf8 bytes with
  | .error e => .error (.undecodable e)
  | .ok raw =>
    match file.read (Text.withPlainNewlines raw) with
    | .error .malformed => .error (.malformed path)
    | .error (.scalar fault) => .error (.badScalar fault)
    | .ok document => fieldsOf path document

variable {m : Type → Type} [Monad m] [FileStore m]

def readFile (file : ProjectFile) (place : DiskPath) : m (Except ConfigError Fields) := do
  match ← FileStore.readBytes place with
  | .error cause => return .error (.unreadable place.text cause)
  | .ok bytes => return fieldsOfOctets file place.text bytes

/-- The settings in the first of some files that exists in a directory. -/
def firstProject (report : Event → m Unit) (directory : DiskPath) :
    List ProjectFile → m (Except ConfigError (Option Fields))
  | [] => return .ok none
  | file :: others => do
    let place := directory.join file.name
    if ← FileStore.isFile place then
      report (.configLoading place.text)
      return (← readFile file place).map some
    else firstProject report directory others

def project (report : Event → m Unit) (directory : DiskPath) :
    m (Except ConfigError (Option Fields)) :=
  firstProject report directory projectFiles

/-! ## Precedence -/

/-- Settings given for one run. -/
structure Override where
  outputDir : Option String := none
  writeInit : Option Bool := none
  checkOnly : Bool := false
  deriving DecidableEq, Repr, Inhabited

/-- The variable that names the output directory, unless it is empty. -/
def outputDirVariable : String := "RESTIFY_OUTPUT_DIR"

def putText (key : String) (value : Option String) (fields : Fields) : Fields :=
  match value with
  | some text => put key (.text text) fields
  | none => fields

def putFlag (key : String) (value : Option Bool) (fields : Fields) : Fields :=
  match value with
  | some flag => put key (.bool flag) fields
  | none => fields

def merged (project : Fields) (environment : Option String) (given : Override) : Fields :=
  let fields := putText "output_dir" (environment.filter (!·.isEmpty)) project
  let fields := putText "output_dir" given.outputDir fields
  let fields := putFlag "write_init" given.writeInit fields
  putFlag "check_only" (if given.checkOnly then some true else none) fields

/-- The value under a key as one of its type, or the default if the key is not there. -/
def valueOr {α : Type} (check : Value → Except Wire.Fault α) (fallback : α) (key : String)
    (fields : Fields) : Except ConfigError α :=
  match lookup? key fields with
  | none => .ok fallback
  | some given =>
    match check given with
    | .ok value => .ok value
    | .error _ => .error .invalid

/-- The settings that fields spell; other fields are ignored. -/
def settingsOf (fields : Fields) : Except ConfigError Settings := do
  let base : Settings := {}
  let outputDir ← valueOr Wire.checkText base.outputDir "output_dir" fields
  let writeInit ← valueOr Wire.checkBool base.writeInit "write_init" fields
  let checkOnly ← valueOr Wire.checkBool base.checkOnly "check_only" fields
  return { outputDir, writeInit, checkOnly }

def resolve (report : Event → m Unit) (directory : DiskPath) (environment : Option String)
    (given : Override) : m (Except ConfigError Settings) := do
  match ← project report directory with
  | .error e => return .error e
  | .ok fields => return settingsOf (merged (fields.getD []) environment given)

end Config

end EndpointDsl
