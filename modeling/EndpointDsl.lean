import EndpointDsl.Calendar.Basic
import EndpointDsl.Calendar.Reader
import EndpointDsl.Client.Docs
import EndpointDsl.Client.FieldType
import EndpointDsl.Client.Generate
import EndpointDsl.Client.Layout
import EndpointDsl.Client.Module
import EndpointDsl.Client.Package
import EndpointDsl.CommandLine.Help
import EndpointDsl.CommandLine.Options
import EndpointDsl.CommandLine.Request
import EndpointDsl.CommandLine.Run
import EndpointDsl.Compilation.Basic
import EndpointDsl.Compilation.Event
import EndpointDsl.Compilation.Overview
import EndpointDsl.Config.PlainScalar
import EndpointDsl.Config.Settings
import EndpointDsl.Config.Yaml
import EndpointDsl.Console
import EndpointDsl.Diagnostic
import EndpointDsl.ExitStatus
import EndpointDsl.Files.Disk
import EndpointDsl.Files.Path
import EndpointDsl.Files.Store
import EndpointDsl.Host.Basic
import EndpointDsl.Host.Live
import EndpointDsl.Host.Scripted
import EndpointDsl.Json.Reader
import EndpointDsl.Json.Value
import EndpointDsl.Json.Writer
import EndpointDsl.Main
import EndpointDsl.Name.Casing
import EndpointDsl.Name.Identifier
import EndpointDsl.Number.Binary64
import EndpointDsl.Number.Power
import EndpointDsl.Number.Reader
import EndpointDsl.Number.Shortest
import EndpointDsl.Path.Template
import EndpointDsl.Proofs.Lists
import EndpointDsl.Proofs.Schema.MemberRules
import EndpointDsl.Proofs.Schema.MethodRules
import EndpointDsl.Proofs.Schema.Uniqueness
import EndpointDsl.Proofs.Schema.WellFormed
import EndpointDsl.Reading
import EndpointDsl.Schema.Analysis
import EndpointDsl.Schema.Basic
import EndpointDsl.Schema.Build
import EndpointDsl.Schema.Capability
import EndpointDsl.Schema.Primitive
import EndpointDsl.Schema.Rules.Member
import EndpointDsl.Schema.Rules.Method
import EndpointDsl.Schema.Rules.Uniqueness
import EndpointDsl.Schema.Scope
import EndpointDsl.Schema.SemanticError
import EndpointDsl.Source.Hint
import EndpointDsl.Source.Lexer
import EndpointDsl.Source.Loading
import EndpointDsl.Source.Location
import EndpointDsl.Source.SyntaxError
import EndpointDsl.Source.Token
import EndpointDsl.Text.Decimal
import EndpointDsl.Text.Digit
import EndpointDsl.Text.Escape
import EndpointDsl.Text.Hex
import EndpointDsl.Text.LetterCase
import EndpointDsl.Text.Lines
import EndpointDsl.Text.Percent
import EndpointDsl.Text.Printable
import EndpointDsl.Text.Quoted
import EndpointDsl.Text.Similar
import EndpointDsl.Text.Utf8
import EndpointDsl.Tree.Basic
import EndpointDsl.Tree.Parser
import EndpointDsl.Vocabulary
import EndpointDsl.Wire.Call
import EndpointDsl.Wire.Decode
import EndpointDsl.Wire.Encode
import EndpointDsl.Wire.Fault
import EndpointDsl.Wire.Load
import EndpointDsl.Wire.Nesting
import EndpointDsl.Wire.Scalar
import EndpointDsl.Wire.Shown
import EndpointDsl.Wire.Uri
import EndpointDsl.Wire.Value
import EndpointDsl.Proofs.Schema.Built
import EndpointDsl.Proofs.Schema.Capabilities
import EndpointDsl.Proofs.Schema.Analysis
import EndpointDsl.Proofs.Schema.Resolution
import EndpointDsl.Proofs.Client.Generation
import EndpointDsl.Proofs.Client.Documentation
import EndpointDsl.Proofs.Compilation
import EndpointDsl.Proofs.Client.Classes
import EndpointDsl.Proofs.Wire.Fields
import EndpointDsl.Proofs.Wire.OwnEntry
import EndpointDsl.Proofs.Calendar.Days
import EndpointDsl.Proofs.Calendar.Readers
import EndpointDsl.Proofs.Wire.Scalars
import EndpointDsl.Proofs.Wire.Obtained
import EndpointDsl.Proofs.Wire.RoundTrip
import EndpointDsl.Proofs.Json.Literal
import EndpointDsl.Proofs.Wire.Instances
import EndpointDsl.Proofs.Schema.Inheritance
import EndpointDsl.Proofs.Tree.Recovery
import EndpointDsl.Proofs.Path.Template
import EndpointDsl.Proofs.Tree.Grammar
import EndpointDsl.Proofs.Tree.Soundness
import EndpointDsl.Proofs.Tree.Completeness
import EndpointDsl.Proofs.Source.Writing
import EndpointDsl.Proofs.Tree.Parsing
import EndpointDsl.Proofs.Client.Roles
import EndpointDsl.Proofs.Tree.Names
import EndpointDsl.Proofs.Wire.Uri
import EndpointDsl.Proofs.Client.Declarations
import EndpointDsl.Proofs.Wire.Arguments
import EndpointDsl.Proofs.Wire.Requests
import EndpointDsl.Proofs.Wire.Loading
import EndpointDsl.Proofs.Text.NullFree
import EndpointDsl.Proofs.Client.Texts
import EndpointDsl.Proofs.Source.Relocation
import EndpointDsl.Proofs.Source.Places
import EndpointDsl.Proofs.Tree.Relocation
import EndpointDsl.Proofs.Tree.Brackets
import EndpointDsl.Proofs.Schema.Relocation
import EndpointDsl.Proofs.Schema.RelocatedRules
import EndpointDsl.Proofs.Client.Relocation
import EndpointDsl.Proofs.Compilation.Places
import EndpointDsl.Proofs.Compilation.Layout
import EndpointDsl.Proofs.Compilation.Separation
import EndpointDsl.Proofs.Text.Percent
import EndpointDsl.Proofs.Wire.PathTexts
import EndpointDsl.Proofs.Name.Spelling
import EndpointDsl.Proofs.Client.Names
import EndpointDsl.Proofs.Files.Writing
import EndpointDsl.Proofs.Client.Package
import EndpointDsl.Proofs.Schema.Granted
import EndpointDsl.Proofs.Schema.Reordering
import EndpointDsl.Proofs.Text.Tokens
import EndpointDsl.Proofs.Client.Mentions
import EndpointDsl.Proofs.Client.Closed
import EndpointDsl.Proofs.Schema.Assignment
import EndpointDsl.Proofs.Text.Literals
import EndpointDsl.Proofs.Client.Literals
import EndpointDsl.Proofs.Wire.Builders
import EndpointDsl.Proofs.Wire.Members
import EndpointDsl.Proofs.Text.Lines
import EndpointDsl.Proofs.Text.TripleQuoted
import EndpointDsl.Proofs.Text.LetterCase
import EndpointDsl.Proofs.Client.Docs
import EndpointDsl.Proofs.Client.Docstrings
import EndpointDsl.Proofs.Wire.Placeholders
import EndpointDsl.Proofs.Wire.Flags
import EndpointDsl.Proofs.Wire.Headers
import EndpointDsl.Proofs.Text.Form
import EndpointDsl.Proofs.Wire.Queries
import EndpointDsl.Proofs.Schema.Notation
import EndpointDsl.Proofs.Tree.Rounds
import EndpointDsl.Proofs.Tree.Spans
import EndpointDsl.Proofs.Schema.Isolation
import EndpointDsl.Proofs.Name.Words
import EndpointDsl.Proofs.Name.Styles
import EndpointDsl.Proofs.Wire.Shadowing
import EndpointDsl.Proofs.Files.Places
import EndpointDsl.Proofs.Client.Interruption
import EndpointDsl.Proofs.Source.Runs
import EndpointDsl.Proofs.Source.Cover
import EndpointDsl.Proofs.Source.Spacing
import EndpointDsl.Proofs.Path.Decomposition
import EndpointDsl.Proofs.Name.Boundaries
