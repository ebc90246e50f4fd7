import EndpointDsl.Name.Casing
import EndpointDsl.Schema.Basic
import EndpointDsl.Text.Digit

/-!
Identifiers of the generated modules.

A module is named after its endpoint in snake case, with a leading underscore unless the endpoint
is public.  A method is named after its verb, the pieces of its path and its path parameters.  A
class is the method's name in Pascal case followed by the item's name.  An attribute is the
declared name without leading underscores, with one trailing underscore if the bare name is
taken by the target language, the base classes or the imports of a generated module.
-/

namespace EndpointDsl
namespace Name

/-- Words that cannot be identifiers of the target language. -/
def keywords : List String :=
  ["False", "None", "True", "and", "as", "assert", "async", "await", "break", "class", "continue",
   "def", "del", "elif", "else", "except", "finally", "for", "from", "global", "if", "import", "in",
   "is", "lambda", "nonlocal", "not", "or", "pass", "raise", "return", "try", "while", "with",
   "yield"]

/-- Members that every generated class inherits. -/
def inheritedMembers : List String :=
  ["construct", "copy", "decode", "decode_headers", "dict", "encode", "encode_headers",
   "error_value", "from_orm", "is_error", "json", "parse_file", "parse_obj", "parse_raw", "schema",
   "schema_json", "to_json", "update_forward_refs", "validate", "value", "variant"]

/-- Names that a generated module imports or uses in annotations. -/
def moduleLevelNames : List String :=
  ["annotations", "runtime", "Field", "NonNegativeInt", "Optional", "date", "datetime",
   "str", "int", "float", "bool", "bytes", "list"]

def isReserved (name : String) : Bool :=
  keywords.contains name || inheritedMembers.contains name || moduleLevelNames.contains name

/-- Each run of underscores as a single one. -/
def collapse : List Char → List Char
  | '_' :: '_' :: rest => collapse ('_' :: rest)
  | c :: rest => c :: collapse rest
  | [] => []

def isWordChar (c : Char) : Bool := c.isAlphanum || c == '_'

/-- Dropped leading and trailing underscores. -/
def trimUnderscores (cs : List Char) : List Char :=
  ((cs.dropWhile (· == '_')).reverse.dropWhile (· == '_')).reverse

/-- Every other character as an underscore, without repetitions and without underscores at the
ends. -/
def sanitize (piece : List Char) : List Char :=
  trimUnderscores (collapse (piece.map fun c => if isWordChar c then c else '_'))

def moduleStem (endpoint : String) : String :=
  let base := String.ofList (sanitize (Casing.toSnake endpoint).toList)
  let stem := if base.isEmpty then "endpoint" else base
  if (stem.toList.head?.any Char.isDigit) || keywords.contains stem then "endpoint_" ++ stem
  else stem

def moduleName (endpoint : String) (isPublic : Bool) : String :=
  if isPublic then moduleStem endpoint else "_" ++ moduleStem endpoint

/-- Splits at every slash. -/
def pieces (text : String) : List (List Char) := text.toList.splitOn '/'

def literalParts (text : String) : List String :=
  ((pieces text).map fun p => (sanitize p).map Char.toLower).filterMap fun p =>
    if p.isEmpty then none else some (String.ofList p)

def segmentParts : Segment → List String
  | .param name => ["by_" ++ Casing.toSnake name]
  | .literal text => literalParts text

def pathParts (path : PathTemplate) : List String :=
  match path.segments.flatMap segmentParts with
  | [] => ["root"]
  | parts => parts

def methodIdentifier (verb : Verb) (path : PathTemplate) : String :=
  String.ofList (collapse (String.intercalate "_" (verb.lowerName :: pathParts path)).toList)

def className (verb : Verb) (path : PathTemplate) (item : String) : String :=
  Casing.toPascal (methodIdentifier verb path) ++ item

def attributeStem (name : String) : String :=
  match name.toList.dropWhile (· == '_') with
  | [] => "field"
  | c :: rest =>
    if Text.isDigitForm c then "field_" ++ String.ofList (c :: rest) else String.ofList (c :: rest)

def attributeName (name : String) : String :=
  let stem := attributeStem name
  if isReserved stem || "model_".toList.isPrefixOf stem.toList then stem ++ "_" else stem

end Name

namespace Schema

def Endpoint.moduleName (e : Endpoint) : String := Name.moduleName e.name e.isPublic

def Method.identifier (m : Method) : String := Name.methodIdentifier m.verb m.path

def Method.className (m : Method) (item : String) : String := Name.className m.verb m.path item

end Schema
end EndpointDsl
