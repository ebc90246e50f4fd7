import EndpointDsl.Schema.Basic
import EndpointDsl.Schema.Primitive
import EndpointDsl.Text.Quoted

/-!
The types of generated fields, the imports they need, and the zero values of types.
-/

namespace EndpointDsl
namespace Client

open Schema (Scalar TypeDesc)

/-- Why a schema cannot be turned into a module.  None of these arises from a schema that passed
analysis. -/
inductive GenerationCause
  | unknownPrimitive (name : String)
  | unresolvedReference (name : String) (endpoint : Option String)
  | noZeroValue (type : TypeDesc)
  | structWithoutCapability (name : String)
  | enumWithoutCapability (name : String)
  | fieldWithoutWireName (field struct : String)
  | variantWithoutWireName (variant enum : String)
  | enumWithoutVariants (name : String)
  | uncoveredParameter (name : String) (verb : Verb) (path : String)
  deriving DecidableEq, Repr, Inhabited

def GenerationCause.message : GenerationCause → String
  | unknownPrimitive name => s!"unknown primitive type '{name}'"
  | unresolvedReference name none => s!"unresolved reference '{name}'"
  | unresolvedReference name (some endpoint) =>
    s!"unresolved reference '{name}' in endpoint '{endpoint}'"
  | noZeroValue type => s!"type {Text.quoted type.describe} has no zero value"
  | structWithoutCapability name => s!"struct '{name}' has no serialization capability"
  | enumWithoutCapability name => s!"enum '{name}' has no serialization capability"
  | fieldWithoutWireName field struct => s!"field '{field}' of '{struct}' has no wire name"
  | variantWithoutWireName variant enum => s!"variant '{variant}' of '{enum}' has no wire name"
  | enumWithoutVariants name => s!"enum '{name}' has no variants"
  | uncoveredParameter name verb path =>
    s!"path parameter '{name}' of {verb.name} {path} has no covering field"

/-- What a generated field holds. -/
inductive FieldType
  | scalar (kind : Scalar)
  | list (item : FieldType)
  | optional (inner : FieldType)
  /-- Nothing but the null value. -/
  | unit
  | model (className : String)
  deriving DecidableEq, Repr, Inhabited

def scalarName : Scalar → String
  | .text => "str"
  | .bool => "bool"
  | .int => "int"
  | .natural => "NonNegativeInt"
  | .float => "float"
  | .bytes => "bytes"
  | .dateTime => "datetime"
  | .date => "date"

/-- A name and the module it is imported from. -/
structure Import where
  module : String
  name : String
  deriving DecidableEq, Repr, Inhabited

def scalarImports : Scalar → List Import
  | .natural => [⟨"pydantic", "NonNegativeInt"⟩]
  | .dateTime => [⟨"datetime", "datetime"⟩]
  | .date => [⟨"datetime", "date"⟩]
  | _ => []

namespace FieldType

def text : FieldType → String
  | scalar kind => scalarName kind
  | list item => "list[" ++ item.text ++ "]"
  | optional inner => "Optional[" ++ inner.text ++ "]"
  | unit => "None"
  | model className => className

/-- The class that a type names, if it names one. -/
def className? : FieldType → Option String
  | scalar _ => none
  | list item => item.className?
  | optional inner => inner.className?
  | unit => none
  | model className => some className

/-- The imports in the order in which they are needed, with repetitions. -/
def imports : FieldType → List Import
  | scalar kind => scalarImports kind
  | list item => item.imports
  | optional inner => ⟨"typing", "Optional"⟩ :: inner.imports
  | unit => []
  | model _ => []

/-- The field type for a schema type.  `className` finds the class of a referenced item. -/
def ofType (className : String → Except GenerationCause String) :
    TypeDesc → Except GenerationCause FieldType
  | .primitive name =>
    match Scalar.ofName? name with
    | some kind => .ok (scalar kind)
    | none => .error (.unknownPrimitive name)
  | .collection item => (ofType className item).map list
  | .optional inner => (ofType className inner).map optional
  | .reference name => (className name).map model

/-- The field type for a schema type that may be absent, marked so only once. -/
def ofOptionalType (className : String → Except GenerationCause String) (type : TypeDesc) :
    Except GenerationCause FieldType :=
  if type.isOptional then ofType className type else (ofType className type).map optional

end FieldType

/-- The value that a missing field with a default gets. -/
inductive Zero
  | text
  | bool
  | int
  | float
  | bytes
  | list
  deriving DecidableEq, Repr, Inhabited

namespace Zero

/-- The callable that builds the value. -/
def factory : Zero → String
  | text => "str"
  | bool => "bool"
  | int => "int"
  | float => "float"
  | bytes => "bytes"
  | list => "list"

def ofScalar? : Scalar → Option Zero
  | .text => some text
  | .bool => some bool
  | .int => some int
  | .natural => some int
  | .float => some float
  | .bytes => some bytes
  | .dateTime => none
  | .date => none

def ofType (type : TypeDesc) : Except GenerationCause Zero :=
  match type with
  | .collection _ => .ok list
  | .primitive name =>
    match (Scalar.ofName? name).bind ofScalar? with
    | some z => .ok z
    | none => .error (.noZeroValue type)
  | _ => .error (.noZeroValue type)

end Zero

end Client
end EndpointDsl
