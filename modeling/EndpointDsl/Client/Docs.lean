import EndpointDsl.Name.Identifier
import EndpointDsl.Text.Lines

/-!
Documentation of the generated modules.

Text that comes from the source is escaped, so that it cannot end the documentation string it
stands in.
-/

namespace EndpointDsl
namespace Client

open Schema (Capability Field Struct Enum Method Endpoint)

namespace Docs

def escapeChar (c : Char) : List Char :=
  if c = '\\' ∨ c = '"' then ['\\', c] else [c]

def escape (s : String) : String := String.ofList (s.toList.flatMap escapeChar)

def code (s : String) : String := "\x60\x60" ++ s ++ "\x60\x60"

def route (m : Method) : String := code (m.verb.name ++ " " ++ escape m.path.raw)

def padded (indent : Nat) (line : String) : String :=
  if line.isEmpty then "" else String.ofList (List.replicate indent ' ') ++ line

/-- A documentation string.  The first line follows the opening quotes; further lines and the
closing quotes are indented.  A text of nothing but newlines has no first line. -/
def literal? (indent : Nat) (text : String) : Option String :=
  match Text.lines (Text.trimNewlines text) with
  | [] => none
  | [line] => some ("\"\"\"" ++ line ++ "\"\"\"")
  | first :: rest =>
    some ("\"\"\"" ++ String.intercalate "\n" (first :: rest.map (padded indent)) ++ "\n" ++
      String.ofList (List.replicate indent ' ') ++ "\"\"\"")

def literal (indent : Nat) (text : String) : String :=
  (literal? indent text).getD "\"\"\"\"\"\""

def joinLines (lines : List String) : String := String.intercalate "\n" lines

def capabilitySentence (c : Capability) : String :=
  if c.urlEncoded then "Encoded for sending and rendered as a URL query string."
  else if c.encode && c.decode then "Encoded for sending and decoded from received payloads."
  else if c.encode then "Encoded for sending."
  else "Decoded from received payloads."

def absenceSentence (f : Field) : String :=
  if !f.isOptional && f.hasDefault then "Zero value when missing."
  else if !f.isOptional then "Required."
  else if f.omitIfAbsent && f.defaultIfMissing then
    "Optional, omitted when absent and " ++ code "None" ++ " when missing."
  else if f.omitIfAbsent then "Optional, omitted when absent."
  else "Optional, " ++ code "None" ++ " when missing."

def fieldLine (parameters : List String) (f : Field) : String :=
  let parts := [code f.type.describe ++ " as " ++ code (escape (f.wireName.getD f.name)) ++ ".",
      absenceSentence f] ++
    (if parameters.contains f.name then ["Fills " ++ code ("\x7b" ++ f.name ++ "\x7d") ++ "."] else []) ++
    (if f.isError then ["Signals a failed response when truthy."] else [])
  Name.attributeName f.name ++ ": " ++ String.intercalate " " parts

def module_ (e : Endpoint) : String :=
  let visibility := if e.isPublic then "Public" else "Private"
  let methods :=
    if e.methods.isEmpty then ["This endpoint declares no methods."]
    else "Methods:" :: e.methods.map ("    " ++ route ·)
  joinLines (s!"{visibility} endpoint {code e.name}." :: "" :: methods)

def roleSummary : Option Role → String
  | some .header => "Headers of"
  | some .request => "Request body of"
  | some .response => "Response body of"
  | some .reqRes => "Request and response body of"
  | some .query => "Query parameters of"
  | none => "Nested structure declared in"

def struct (m : Method) (s : Struct) : String :=
  let parameters := if s.role.isSome then m.path.parameters else []
  let fields :=
    if s.fields.isEmpty then []
    else ["", "Attributes:"] ++ s.fields.map ("    " ++ fieldLine parameters ·)
  joinLines ([roleSummary s.role ++ " " ++ route m ++ ".", "", capabilitySentence s.capability] ++
    fields)

def variantLine (v : Schema.Variant) : String :=
  let wire := code (escape (v.wireName.getD v.name))
  match v.payload with
  | none => s!"    {Name.attributeName v.name}: {wire}."
  | some type => s!"    {Name.attributeName v.name}: {wire} carrying {code type.describe}."

def enum (m : Method) (e : Enum) : String :=
  joinLines (["Enum declared in " ++ route m ++ ".", "",
    "Externally tagged: a unit variant is its wire name, a payload variant",
    "is a single-key object.", "", "Variants:"] ++ e.variants.map variantLine)

def uri (m : Method) (hasQuery : Bool) : String :=
  joinLines ([s!"Build the URI for {route m}."] ++
    (if m.path.parameters.isEmpty then [] else ["", "Path parameters are percent-encoded."]) ++
    (if hasQuery then ["Query fields not used in the path form the query string."] else []))

def request (m : Method) : String := s!"Prepare a {route m} request."

def response (m : Method) (s : Struct) : String :=
  let summary := s!"Decode the body of a {route m} response."
  match s.errorField? with
  | none => summary
  | some f =>
    joinLines [summary, "",
      "Check " ++ code "is_error()" ++ " on the result; " ++ code (Name.attributeName f.name),
      "signals a failed response."]

def headers (m : Method) : String := s!"Decode the headers of a {route m} response."

end Docs
end Client
end EndpointDsl
