import EndpointDsl.Compilation.Basic

/-!
What a compilation reports about its own progress.
-/

namespace EndpointDsl

inductive Level
  | debug
  | info
  deriving DecidableEq, Repr, Inhabited

def Level.name : Level → String
  | debug => "DEBUG"
  | info => "INFO"

inductive Event
  | parsed (unit : String) (endpoints errors : Nat)
  | built (unit : String) (errors : Nat)
  | settled (endpoint : String) (rounds : Nat)
  | checked (endpoints errors : Nat)
  | analyzed (unit : String) (errors : Nat)
  | rejected (unit : String) (diagnostics : Nat)
  | moduleGenerated (name : String) (classes : Nat)
  | generated (modules : Nat) (unit : String)
  | configLoading (path : String)
  | written (files : Nat) (directory : String)
  deriving DecidableEq, Repr, Inhabited

namespace Event

def level : Event → Level
  | rejected _ _ => .info
  | _ => .debug

/-- The channel that an event is reported on.  Events of the compilation as a whole go to the
channel of whoever asked for it. -/
def channel (asker : String) : Event → String
  | settled _ _ => "restify.analyzer.capabilities"
  | checked _ _ => "restify.analyzer.rules"
  | moduleGenerated _ _ => "restify.generator.emitter"
  | configLoading _ => "restify.config"
  | written _ _ => "restify.config"
  | _ => asker

def message : Event → String
  | parsed unit endpoints errors =>
    s!"Parsed {unit}: {endpoints} endpoint(s), {errors} syntax error(s)"
  | built unit errors => s!"Built IR for {unit}: {errors} build error(s)"
  | settled endpoint rounds =>
    s!"Capabilities for endpoint {endpoint} settled after {rounds} round(s)"
  | checked endpoints errors => s!"Analyzed {endpoints} endpoint(s), {errors} error(s)"
  | analyzed unit errors => s!"Analyzed {unit}: {errors} semantic error(s)"
  | rejected unit diagnostics =>
    s!"Compilation of {unit} failed with {diagnostics} diagnostic(s)"
  | moduleGenerated name classes => s!"Generated module {name} ({classes} classes)"
  | generated modules unit => s!"Generated {modules} module(s) for {unit}"
  | configLoading path => s!"Loading project config from {path}"
  | written files directory => s!"Wrote {files} file(s) to {directory}"

/-- The event as one line of a log. -/
def line (asker : String) (e : Event) : String := s!"{e.level.name} {e.channel asker}: {e.message}"

end Event

namespace Compilation

def analysisEvents (unit : String) (a : Schema.Analyzed) : List Event :=
  a.rounds.map (fun r => .settled r.1 r.2) ++
    [.checked a.schema.endpoints.length a.errors.length, .analyzed unit a.errors.length]

def moduleEvents (c : Compilation) : List Event :=
  c.modules.map (fun m => .moduleGenerated m.name m.classes.length) ++
    [.generated c.modules.length c.unit]

/-- What the compilation reports, in order. -/
def events (c : Compilation) : List Event :=
  [.parsed c.unit c.parsed.source.endpoints.length c.parsed.errors.length,
   .built c.unit c.built.errors.length] ++
    (match c.analyzed with
      | some a => analysisEvents c.unit a
      | none => []) ++
    if c.ok then c.moduleEvents else [.rejected c.unit c.diagnostics.length]

end Compilation

end EndpointDsl
