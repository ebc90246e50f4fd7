import EndpointDsl.ExitStatus
import EndpointDsl.Host.Basic
import EndpointDsl.Text.Lines
import EndpointDsl.Text.Utf8

/-!
Where a source text comes from: a file, or the standard input.
-/

namespace EndpointDsl

/-- Why there is no source text. -/
inductive LoadCause
  | missing (path : String)
  | unreadable (path : String)
  | blank (path : String)
  | inputUnreadable
  | inputBlank
  deriving DecidableEq, Repr, Inhabited

namespace LoadCause

def message : LoadCause → String
  | missing path => s!"Source file not found: {path}"
  | unreadable path => s!"Failed to read source file {path}"
  | blank path => s!"Source file is empty: {path}"
  | inputUnreadable => "Failed to read from stdin"
  | inputBlank => "No input received from stdin"

def status (_ : LoadCause) : ExitStatus := .sourceError

end LoadCause

/-- A source text, and the name that locations in it carry. -/
structure Loaded where
  text : String
  unit : String
  deriving DecidableEq, Repr, Inhabited

namespace Loaded

/-- The name of the standard input on the command line. -/
def inputName : String := "-"

/-- The name of the standard input in locations. -/
def inputUnit : String := "<stdin>"

/-- The text that octets hold.  Line ends of every convention become newlines, and a text of
nothing but blanks is refused. -/
def ofOctets (unit : String) (undecodable blank : LoadCause) (bytes : List UInt8) :
    Except LoadCause Loaded :=
  match Text.ofUtf8 bytes with
  | .error _ => .error undecodable
  | .ok raw =>
    let text := Text.withPlainNewlines raw
    if Text.allBlank text then .error blank else .ok { text, unit }

variable {m : Type → Type} [Monad m] [Host m]

def fromInput : m (Except LoadCause Loaded) := do
  match ← Host.readInput with
  | .error _ => return .error .inputUnreadable
  | .ok bytes => return ofOctets inputUnit .inputUnreadable .inputBlank bytes

def fromFile (path : String) : m (Except LoadCause Loaded) := do
  let place := DiskPath.ofText path
  if ← FileStore.isFile place then
    match ← FileStore.readBytes place with
    | .error _ => return .error (.unreadable path)
    | .ok bytes => return ofOctets path (.unreadable path) (.blank path) bytes
  else return .error (.missing path)

def load (source : String) : m (Except LoadCause Loaded) :=
  if source = inputName then fromInput else fromFile source

end Loaded

end EndpointDsl
