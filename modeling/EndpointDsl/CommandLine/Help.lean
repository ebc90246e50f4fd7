import EndpointDsl.CommandLine.Request

/-!
Texts about the use of the program.
-/

namespace EndpointDsl
namespace CommandLine

def programName : String := "restify"

def version : String := "0.1.0"

def versionText : String := programName ++ " " ++ version

def UsageError.message : UsageError → String
  | .unknownOption text => s!"No such option: {text}"
  | .valueUnexpected option => s!"Option '{option}' does not take a value."
  | .valueMissing option => s!"Option '{option}' requires an argument."
  | .commandMissing => "Missing command."
  | .unknownCommand name => s!"No such command '{name}'."
  | .sourceMissing => "Missing argument 'SOURCE'."
  | .extraArguments arguments =>
    "Got unexpected extra argument(s) (" ++ String.intercalate " " arguments ++ ")"

def contradictionMessage : String := "--json and --plain cannot be combined"

def programHelp : List String :=
  ["Usage: restify [OPTIONS] COMMAND [ARGS]...",
   "",
   "Compile REST endpoint DSL sources into typed Python modules.",
   "",
   "Options:",
   "  --version      Show version and exit.",
   "  --json         Print inspect tables as JSON.",
   "  --plain        Print plain text, without Rich formatting.",
   "  --no-color     Disable color output.",
   "  -q, --quiet    Only print errors and data.",
   "  -v, --verbose  Print debug messages and compiler stage logs.",
   "  --help         Show this message and exit.",
   "",
   "Commands:",
   "  compile  Compile a DSL source into Python modules.",
   "  check    Report diagnostics without generating anything.",
   "  inspect  List endpoints, methods, structures, roles and capabilities."]

def commandHelp : Command → List String
  | .compile =>
    ["Usage: restify compile [OPTIONS] SOURCE",
     "",
     "Compile a DSL source into Python modules.",
     "",
     "SOURCE is a DSL source file, or '-' for stdin.",
     "",
     "Options:",
     "  -o, --output TEXT  Output directory for generated modules.",
     "  --no-init          Do not write a package __init__.py.",
     "  -n, --dry-run      Print generated modules instead of writing them.",
     "  --help             Show this message and exit."]
  | .check =>
    ["Usage: restify check [OPTIONS] SOURCE",
     "",
     "Report diagnostics without generating anything.",
     "",
     "SOURCE is a DSL source file, or '-' for stdin.",
     "",
     "Options:",
     "  --help  Show this message and exit."]
  | .inspect =>
    ["Usage: restify inspect [OPTIONS] SOURCE",
     "",
     "List endpoints, methods, structures, roles and capabilities.",
     "",
     "SOURCE is a DSL source file, or '-' for stdin.",
     "",
     "Options:",
     "  --help  Show this message and exit."]

def helpLines : Option Command → List String
  | none => programHelp
  | some command => commandHelp command

end CommandLine
end EndpointDsl
