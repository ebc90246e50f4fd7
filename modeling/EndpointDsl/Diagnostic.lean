import EndpointDsl.Schema.Analysis
import EndpointDsl.Schema.Build
import EndpointDsl.Text.Quoted

/-!
Diagnostics: what is wrong with a source text, and where.

A problem keeps its typed cause.  A notice is what is left of it for the reader: a kind, a message
and a place.
-/

namespace EndpointDsl

/-- The kinds of notice.  A notice without a kind of its own is `general`. -/
inductive NoticeKind
  | general
  | syntactic
  | structural
  | semantic
  deriving DecidableEq, Repr, Inhabited

namespace NoticeKind

/-- The phrase before a message. -/
def phrase : NoticeKind → String
  | general => "error"
  | syntactic => "syntax error"
  | structural => "build error"
  | semantic => "semantic error"

/-- The name that programs know the kind by. -/
def label : NoticeKind → String
  | general => "CompileError"
  | syntactic => "DSLSyntaxError"
  | structural => "BuildError"
  | semantic => "SemanticError"

def all : List NoticeKind := [general, syntactic, structural, semantic]

def ofLabel? (label : String) : Option NoticeKind := all.find? (·.label == label)

end NoticeKind

structure Notice where
  kind : NoticeKind
  message : String
  location : Location
  deriving DecidableEq, Repr, Inhabited

namespace Notice

def text (n : Notice) : String := s!"{n.location.text}: {n.kind.phrase}: {n.message}"

/-- The notice as a value shown in a trace. -/
def shown (n : Notice) : String :=
  s!"{n.kind.label}({Text.quoted n.message}, {n.location.text})"

end Notice

/-- What is wrong with a source text. -/
inductive Problem
  /-- The text is no sequence of endpoint blocks. -/
  | syntactic (cause : SyntaxCause)
  /-- A declaration has a shape that the schema has no room for. -/
  | structural (cause : Schema.BuildCause)
  /-- The schema breaks a rule. -/
  | semantic (cause : Schema.SemanticCause)
  deriving DecidableEq, Repr, Inhabited

namespace Problem

def kind : Problem → NoticeKind
  | syntactic _ => .syntactic
  | structural _ => .structural
  | semantic _ => .semantic

def message : Problem → String
  | syntactic cause => cause.message
  | structural cause => cause.message
  | semantic cause => cause.message

end Problem

abbrev Diagnostic := Located Problem

def Diagnostic.notice (d : Diagnostic) : Notice := ⟨d.cause.kind, d.cause.message, d.location⟩

def Located.map {α β : Type} (f : α → β) (x : Located α) : Located β := ⟨f x.cause, x.location⟩

def SyntaxError.diagnostic (e : SyntaxError) : Diagnostic := e.map .syntactic

def Schema.BuildError.diagnostic (e : Schema.BuildError) : Diagnostic := e.map .structural

def Schema.SemanticError.diagnostic (e : Schema.SemanticError) : Diagnostic := e.map .semantic

end EndpointDsl
