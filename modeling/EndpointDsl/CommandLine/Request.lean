import EndpointDsl.CommandLine.Options
import EndpointDsl.Console
import EndpointDsl.ExitStatus

/-!
What the arguments of the program ask for.

Options before the command say how to print, those after it belong to the command.
-/

namespace EndpointDsl
namespace CommandLine

/-- How to print. -/
structure Display where
  json : Bool := false
  plain : Bool := false
  noColor : Bool := false
  quiet : Bool := false
  verbose : Bool := false
  deriving DecidableEq, Repr, Inhabited

namespace Display

/-- Whether two formats are asked for. -/
def isContradictory (d : Display) : Bool := d.json && d.plain

def format (d : Display) : Option Format :=
  if d.json then some .json else if d.plain then some .plain else none

def console (d : Display) (t : Terminal) : Console :=
  { format := Console.resolve d.format d.noColor t, quiet := d.quiet, verbose := d.verbose }

end Display

inductive Command
  | compile
  | check
  | inspect
  deriving DecidableEq, Repr, Inhabited

namespace Command

def name : Command → String
  | compile => "compile"
  | check => "check"
  | inspect => "inspect"

def all : List Command := [compile, check, inspect]

def ofName? (name : String) : Option Command := all.find? (·.name == name)

theorem ofName?_name (c : Command) : ofName? c.name = some c := by cases c <;> decide

end Command

/-- A command with what it needs to run. -/
inductive Task
  | compile (source : String) (outputDir : Option String) (noInit dryRun : Bool)
  | check (source : String)
  | inspect (source : String)
  deriving DecidableEq, Repr, Inhabited

inductive Request
  /-- Shows how the program, or one of its commands, is used. -/
  | help (command : Option Command) (status : ExitStatus)
  | version
  | misuse (error : UsageError)
  /-- Two formats are asked for at once. -/
  | contradiction
  | run (display : Display) (task : Task)
  deriving DecidableEq, Repr, Inhabited

/-! ## Options of the program -/

inductive ProgramOption
  | version
  | json
  | plain
  | noColor
  | quiet
  | verbose
  | help
  deriving DecidableEq, Repr

def programOptions : List (OptionSpec ProgramOption) :=
  [{ key := .version, long := "--version" },
   { key := .json, long := "--json" },
   { key := .plain, long := "--plain" },
   { key := .noColor, long := "--no-color" },
   { key := .quiet, long := "--quiet", short := some 'q' },
   { key := .verbose, long := "--verbose", short := some 'v' },
   { key := .help, long := "--help" }]

def displayOf (s : Sorted ProgramOption) : Display where
  json := s.has .json
  plain := s.has .plain
  noColor := s.has .noColor
  quiet := s.has .quiet
  verbose := s.has .verbose

/-- Options that answer at once.  The first one given counts. -/
def immediate? (s : Sorted ProgramOption) : Option Request :=
  s.given.findSome? fun g =>
    match g.key with
    | .version => some .version
    | .help => some (.help none .success)
    | _ => none

/-! ## Options of the commands -/

inductive CommandOption
  | output
  | noInit
  | dryRun
  | help
  deriving DecidableEq, Repr

def commandOptions : Command → List (OptionSpec CommandOption)
  | .compile =>
    [{ key := .output, long := "--output", short := some 'o', takesValue := true },
     { key := .noInit, long := "--no-init" },
     { key := .dryRun, long := "--dry-run", short := some 'n' },
     { key := .help, long := "--help" }]
  | .check | .inspect => [{ key := .help, long := "--help" }]

def taskOf (command : Command) (s : Sorted CommandOption) (source : String) : Task :=
  match command with
  | .compile => .compile source (s.value? .output) (s.has .noInit) (s.has .dryRun)
  | .check => .check source
  | .inspect => .inspect source

def readCommand (display : Display) (command : Command) (arguments : List String) : Request :=
  match sortArguments (commandOptions command) true arguments with
  | .error e => .misuse e
  | .ok s =>
    if s.has .help then .help (some command) .success
    else
      match s.others with
      | [] => .misuse .sourceMissing
      | [source] => .run display (taskOf command s source)
      | _ :: extra => .misuse (.extraArguments extra)

/-! ## The whole line -/

def readAfterOptions (display : Display) : List String → Request
  | [] => .misuse .commandMissing
  | name :: arguments =>
    match Command.ofName? name with
    | none => .misuse (.unknownCommand name)
    | some command =>
      if display.isContradictory then .contradiction else readCommand display command arguments

def readOptions (arguments : List String) : Request :=
  match sortArguments programOptions false arguments with
  | .error e => .misuse e
  | .ok s => (immediate? s).getD (readAfterOptions (displayOf s) s.others)

/-- What the arguments ask for.  Without any, the program shows how it is used. -/
def Request.read (arguments : List String) : Request :=
  if arguments.isEmpty then .help none .invalidUsage else readOptions arguments

end CommandLine
end EndpointDsl
