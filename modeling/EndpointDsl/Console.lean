import EndpointDsl.Diagnostic
import EndpointDsl.Json.Writer

/-!
What the program shows.

Data goes to one stream, and everything said about it to the other, so that the first can be
piped on as it is.
-/

namespace EndpointDsl

/-- Text for the stream of data and for the stream of messages. -/
structure Printed where
  out : String := ""
  err : String := ""
  deriving DecidableEq, Repr, Inhabited

def Printed.append (p q : Printed) : Printed := ⟨p.out ++ q.out, p.err ++ q.err⟩

/-- How data is laid out. -/
inductive Format
  | json
  | plain
  /-- For a terminal with colours, which gets the text of `plain`. -/
  | rich
  deriving DecidableEq, Repr, Inhabited

def Format.name : Format → String
  | json => "json"
  | plain => "plain"
  | rich => "rich"

/-- What decides whether colours are shown. -/
structure Terminal where
  isTerminal : Bool
  /-- The variable that asks for no colour, if it is set to anything. -/
  noColor : Option String
  /-- The kind of terminal. -/
  term : Option String
  deriving DecidableEq, Repr, Inhabited

/-- Whether the environment asks for no colour: a terminal that cannot show it asks too. -/
def Terminal.refusesColor (t : Terminal) : Bool := t.noColor.isSome || t.term == some "dumb"

structure Console where
  format : Format := .plain
  quiet : Bool := false
  verbose : Bool := false
  deriving DecidableEq, Repr, Inhabited

namespace Console

/-- The format asked for, or else the one that suits the terminal. -/
def resolve (asked : Option Format) (noColor : Bool) (t : Terminal) : Format :=
  match asked with
  | some format => format
  | none => if t.isTerminal && !(noColor || t.refusesColor) then .rich else .plain

/-! ## Data -/

def data (text : String) : Printed := { out := text ++ "\n" }

def dataLines (lines : List String) : Printed := { out := String.join (lines.map (· ++ "\n")) }

def withoutLastNewlines (text : String) : String :=
  String.ofList (text.toList.reverse.dropWhile (· == '\n')).reverse

/-- A generated source, below a line with its title if that is not empty. -/
def source (text title : String) : Printed :=
  let marker := if title.isEmpty then [] else [s!"# --- {title} ---"]
  dataLines (marker ++ [withoutLastNewlines text])

/-- A row as fields named by the headers.  Of two headers with one name the last one counts. -/
def record (headers row : List String) : Json :=
  .object (lastWins ((headers.zip row).map fun f => (f.1, .string f.2)))

def table (c : Console) (headers : List String) (rows : List (List String)) : Printed :=
  match c.format with
  | .json => data (Json.indented 0 (.array (rows.map (record headers))))
  | .plain | .rich => dataLines ((headers :: rows).map (String.intercalate "\t"))

/-! ## Messages -/

def message (text : String) : Printed := { err := text ++ "\n" }

def info (c : Console) (text : String) : Printed := if c.quiet then {} else message text

def warning (text : String) : Printed := message ("Warning: " ++ text)

def error (text : String) : Printed := message ("Error: " ++ text)

def debug (c : Console) (text : String) : Printed :=
  if c.verbose then message ("[debug] " ++ text) else {}

def diagnostics (notices : List Notice) : Printed :=
  { err := String.join (notices.map fun n => n.text ++ "\n") }

end Console

end EndpointDsl
