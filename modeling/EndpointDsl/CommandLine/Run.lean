import EndpointDsl.Client.Package
import EndpointDsl.CommandLine.Help
import EndpointDsl.Compilation.Overview
import EndpointDsl.Source.Loading

/-!
Running what the arguments ask for.
-/

namespace EndpointDsl
namespace CommandLine

variable {m : Type → Type} [Monad m] [Host m]

/-- Ends a run with an error. -/
def fail (status : ExitStatus) (text : String) : m ExitStatus := do
  Host.print (Console.error text)
  return status

/-- The channel of events that no part of the compiler has for itself. -/
def eventChannel : String := "restify.cli"

/-- Shows an event to those who want to see all. -/
def report (console : Console) (e : Event) : m Unit :=
  if console.verbose then Host.print (Console.message (e.line eventChannel)) else pure ()

def printAll (items : List Printed) : m Unit := items.forM Host.print

/-- Loads and compiles a source and goes on with the result if there is nothing wrong with it. -/
def withCompilation (console : Console) (source : String) (next : Compilation → m ExitStatus) :
    m ExitStatus := do
  match ← Loaded.load source with
  | .error cause => fail cause.status cause.message
  | .ok loaded =>
    Host.print (console.debug s!"Loaded {loaded.text.length} characters from {loaded.unit}")
    match compile loaded.text loaded.unit with
    | .error cause => fail .internalError cause.message
    | .ok c =>
      c.events.forM (report console)
      if c.ok then next c
      else
        Host.print (Console.diagnostics (c.diagnostics.map Diagnostic.notice))
        fail .compileError (Compilation.failureMessage c.diagnostics.length)

def withSettings (console : Console) (given : Config.Override)
    (next : Settings → m ExitStatus) : m ExitStatus := do
  let directory ← Host.workingDirectory
  let environment ← Host.environment Config.outputDirVariable
  match ← Config.resolve (report console) directory environment given with
  | .error e => fail e.status e.message
  | .ok settings => next settings

def writeModules (console : Console) (settings : Settings) (modules : List Client.Module) :
    m ExitStatus := do
  match ← Client.writePackage (report console) settings
      (Client.SourceFile.ofModules settings modules) with
  | .error e => fail .failure s!"Failed to write output: {e.message}"
  | .ok places =>
    printAll (places.map fun p => console.debug s!"Wrote {p.text}")
    Host.print (console.info s!"Generated {modules.length} module(s) in {settings.outputDir}")
    return .success

/-- What to do with the modules of a source: nothing, print them or write them. -/
def deliver (console : Console) (settings : Settings) (dryRun : Bool) (c : Compilation) :
    m ExitStatus := do
  if c.modules.isEmpty then
    Host.print (Console.warning s!"No endpoints declared in {c.unit}")
  if settings.checkOnly then
    Host.print (console.info s!"No problems found in {c.unit}")
    return .success
  else if dryRun then
    printAll ((Client.SourceFile.ofModules settings c.modules).map fun f =>
      Console.source f.text f.filename)
    return .success
  else writeModules console settings c.modules

def perform (console : Console) : Task → m ExitStatus
  | .compile source outputDir noInit dryRun =>
    let given := { outputDir, writeInit := if noInit then some false else none }
    withSettings console given fun settings =>
      withCompilation console source (deliver console settings dryRun)
  | .check source =>
    withSettings console { checkOnly := true } fun settings =>
      withCompilation console source (deliver console settings false)
  | .inspect source =>
    withCompilation console source fun c => do
      Host.print (console.table Overview.headers (Overview.rows c.schema))
      return .success

def answer : Request → m ExitStatus
  | .help command status => do
    Host.print (Console.dataLines (helpLines command))
    return status
  | .version => do
    Host.print (Console.data versionText)
    return .success
  | .misuse e => fail .invalidUsage e.message
  | .contradiction => fail .invalidUsage contradictionMessage
  | .run display task => do
    perform (display.console (← Host.terminal)) task

/-- Runs the program on its arguments. -/
def run (arguments : List String) : m ExitStatus := answer (.read arguments)

end CommandLine
end EndpointDsl
