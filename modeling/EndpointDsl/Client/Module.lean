import EndpointDsl.Client.FieldType

/-!
What a generated module declares: its classes, one per structure or enum, and its functions, which
build URIs and requests and read responses.
-/

namespace EndpointDsl
namespace Client

/-- The value of a field that is not given. -/
inductive Fallback
  | required
  | absent
  | zero (value : Zero)
  /-- The builder method for an attribute of a class.  No field is declared with it, but a field
  that is bound to the method's name again is left with it. -/
  | builder (className attr : String)
  deriving DecidableEq, Repr, Inhabited

structure FieldDef where
  attr : String
  fieldType : FieldType
  wire : String
  fallback : Fallback
  deriving DecidableEq, Repr, Inhabited

/-- The base class, which decides what instances can do. -/
inductive Base
  | encodable
  | queryEncodable
  | decodable
  | both
  | enum
  deriving DecidableEq, Repr, Inhabited

namespace Base

def name : Base → String
  | encodable => "runtime.Encodable"
  | queryEncodable => "runtime.QueryEncodable"
  | decodable => "runtime.Decodable"
  | both => "runtime.Both"
  | enum => "runtime.RestEnum"

def canEncode : Base → Bool
  | decodable => false
  | _ => true

def canDecode : Base → Bool
  | decodable | both | enum => true
  | _ => false

end Base

structure ClassDef where
  name : String
  base : Base
  doc : String
  fields : List FieldDef
  /-- Whether every field has a method that replaces its value in a copy. -/
  builder : Bool := false
  /-- Attributes left out of the encoded form while they are null. -/
  omitted : List String := []
  errorAttr : Option String := none
  /-- Variants without a payload. -/
  units : List String := []
  /-- Variants whose payload is not null. -/
  payloadRequired : List String := []
  deriving DecidableEq, Repr, Inhabited

def ClassDef.field? (c : ClassDef) (attr : String) : Option FieldDef :=
  c.fields.find? (·.attr == attr)

/-- An argument that holds the structure of a role. -/
structure Param where
  role : Role
  className : String
  deriving DecidableEq, Repr, Inhabited

def argumentName : Role → String
  | .header => "header"
  | .request => "request"
  | .response => "response"
  | .reqRes => "reqres"
  | .query => "query"

/-- A path parameter and the attribute of an argument that fills it. -/
structure PathValue where
  parameter : String
  role : Role
  attr : String
  deriving DecidableEq, Repr, Inhabited

inductive Body
  /-- The path with its parameters filled in, and the query without the excluded keys, if there
  is a query argument. -/
  | uri (params : List Param) (template : String) (values : List PathValue)
      (query : Option (List String))
  /-- A request: its URI from the URI function, the headers of the header argument, and the
  encoded form of a body argument. -/
  | request (params : List Param) (verb : Verb) (uriFunction : String) (uriRoles : List Role)
      (hasHeader : Bool) (body : Option Role)
  | response (className : String)
  | headers (className : String)
  deriving DecidableEq, Repr, Inhabited

structure FunctionDef where
  name : String
  doc : String
  body : Body
  deriving DecidableEq, Repr, Inhabited

structure Module where
  endpoint : String
  name : String
  unit : String
  doc : String
  isPublic : Bool
  classes : List ClassDef
  functions : List FunctionDef
  deriving DecidableEq, Repr, Inhabited

namespace Module

def class? (m : Module) (name : String) : Option ClassDef := m.classes.find? (·.name == name)

def function? (m : Module) (name : String) : Option FunctionDef :=
  m.functions.find? (·.name == name)

def fields (m : Module) : List FieldDef := m.classes.flatMap (·.fields)

/-- The names a public module exports. -/
def exports (m : Module) : List String :=
  if m.isPublic then m.classes.map (·.name) ++ m.functions.map (·.name) else []

def imports (m : Module) : List Import :=
  (m.fields.flatMap (·.fieldType.imports)) ++
    if m.fields.isEmpty then [] else [⟨"pydantic", "Field"⟩]

def filename (m : Module) : String := m.name ++ ".py"

end Module

end Client
end EndpointDsl
