import EndpointDsl.Client.Generate
import EndpointDsl.Diagnostic
import EndpointDsl.Tree.Parser

/-!
Compilation of a source text.

The text is read block by block and the blocks that can be read are built into a schema.  Analysis
runs only when neither step found anything wrong, and generation only when analysis found nothing
either, so a result has diagnostics or modules and never both.
-/

namespace EndpointDsl

structure Compilation where
  unit : String
  parsed : Tree.Parsed
  built : Schema.Built
  /-- What analysis found, if it ran. -/
  analyzed : Option Schema.Analyzed
  modules : List Client.Module

namespace Compilation

/-- What is wrong before analysis, in source order. -/
def frontDiagnostics (parsed : Tree.Parsed) (built : Schema.Built) : List Diagnostic :=
  Schema.bySource (parsed.errors.map SyntaxError.diagnostic ++
    built.errors.map Schema.BuildError.diagnostic)

def analysisDiagnostics (analyzed : Option Schema.Analyzed) : List Diagnostic :=
  match analyzed with
  | some a => a.errors.map Schema.SemanticError.diagnostic
  | none => []

def diagnostics (c : Compilation) : List Diagnostic :=
  frontDiagnostics c.parsed c.built ++ analysisDiagnostics c.analyzed

def ok (c : Compilation) : Bool := c.diagnostics.isEmpty

/-- The schema as far as it was worked out. -/
def schema (c : Compilation) : Schema :=
  match c.analyzed with
  | some a => a.schema
  | none => c.built.schema

def failureMessage (count : Nat) : String :=
  s!"compilation failed with {count} diagnostic" ++ if count = 1 then "" else "s"

end Compilation

/-- The modules of an analysed schema, or none if analysis found errors. -/
def generatedModules (a : Schema.Analyzed) : Client.Gen (List Client.Module) :=
  if a.errors.isEmpty then Client.generate a.schema else .ok []

/-- Compiles a text.  A generation cause would be a rule missing from analysis. -/
def compile (text unit : String) : Client.Gen Compilation :=
  let parsed := Tree.parse text unit
  let built := Schema.build parsed.source
  if (Compilation.frontDiagnostics parsed built).isEmpty then
    let analyzed := Schema.analyze built.schema
    (generatedModules analyzed).map fun modules => ⟨unit, parsed, built, some analyzed, modules⟩
  else .ok ⟨unit, parsed, built, none, []⟩

end EndpointDsl
