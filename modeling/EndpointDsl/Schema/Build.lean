import EndpointDsl.Schema.Basic
import EndpointDsl.Schema.Primitive
import EndpointDsl.Source.SyntaxError
import EndpointDsl.Tree.Basic

/-!
From the tree to the schema.

Every type expression is classified as primitive, collection, reference or optional, and every
attribute by its key or, for a bare literal, by its place.  An item with a part that fits no class
is left out, and its first such part is reported; the other items are built all the same.
-/

namespace EndpointDsl
namespace Schema

inductive BuildCause
  | lowercaseName (what name : String)
  | collectionArity (count : Nat)
  | unexpectedArguments (name : String)
  | unknownPrimitive (name : String)
  | unknownAttribute (key : String)
  | missingValue (key : String)
  | unwantedValue (key : String)
  deriving DecidableEq, Repr, Inhabited

def BuildCause.message : BuildCause → String
  | lowercaseName what name =>
    s!"{what} name '{name}' must start with an uppercase letter; " ++
      "lowercase names are reserved for primitive types"
  | collectionArity count => s!"'Vec' takes exactly one type argument, got {count}"
  | unexpectedArguments name =>
    s!"type '{name}' does not take generic arguments; 'Vec<T>' is the only generic form"
  | unknownPrimitive name => s!"unknown primitive type '{name}'"
  | unknownAttribute key => s!"unknown attribute '{key}'"
  | missingValue key => s!"attribute '{key}' needs a value: [{key} = \"...\"]"
  | unwantedValue key => s!"attribute '{key}' does not take a value"

abbrev BuildError := Located BuildCause

/-- Identifiers are ASCII, so only ASCII capitals count. -/
def startsUpper (name : String) : Bool :=
  match name.toList with
  | [] => false
  | c :: _ => c.isUpper

/-- A type with its optional mark put around it. -/
def markOptional (optional : Bool) (inner : TypeDesc) : TypeDesc :=
  if optional then .optional inner else inner

def buildType : Tree.TypeExpr → Except BuildError TypeDesc
  | ⟨name, optional, args, location⟩ =>
    if name = collectionName then
      match args with
      | [arg] =>
        match buildType arg with
        | .error e => .error e
        | .ok item => .ok (markOptional optional (.collection item))
      | _ => .error ⟨.collectionArity args.length, location⟩
    else if !args.isEmpty then .error ⟨.unexpectedArguments name, location⟩
    else if isPrimitive name then .ok (markOptional optional (.primitive name))
    else if startsUpper name then .ok (markOptional optional (.reference name))
    else .error ⟨.unknownPrimitive name, location⟩

/-! ## Attributes -/

/-- A bare literal is a style before a type and a wire name before a member, except that the
literal `isError` before a member is the marker. -/
def literalKind (scope : AttributeScope) (value : String) : AttributeKind :=
  match scope with
  | .type => .renameAll value
  | .field => if value = "isError" then .isError else .rename value

def flagKind (key : String) : Except BuildCause AttributeKind :=
  if key = "rename_all" ∨ key = "rename" then .error (.missingValue key)
  else if key = "isError" ∨ key = "is_error" then .ok .isError
  else if key = "builder" then .ok .builder
  else if key = "default" then .ok .default
  else .error (.unknownAttribute key)

def settingKind (key value : String) : Except BuildCause AttributeKind :=
  if key = "rename_all" then .ok (.renameAll value)
  else if key = "rename" then .ok (.rename value)
  else if key = "isError" ∨ key = "is_error" ∨ key = "builder" ∨ key = "default" then
    .error (.unwantedValue key)
  else .error (.unknownAttribute key)

def entryKind (scope : AttributeScope) : Tree.AttributeEntry → Except BuildCause AttributeKind
  | .literal value => .ok (literalKind scope value)
  | .flag key => flagKind key
  | .setting key value => settingKind key value

def buildAttribute (scope : AttributeScope) (item : Tree.AttributeItem) :
    Except BuildError Attribute :=
  match entryKind scope item.entry with
  | .error cause => .error ⟨cause, item.location⟩
  | .ok kind => .ok ⟨kind, scope, item.location⟩

/-- The items of all brackets, as one list. -/
def buildAttributes (scope : AttributeScope) (brackets : List Tree.Attribute) :
    Except BuildError (List Attribute) :=
  (brackets.flatMap (·.items)).mapM (buildAttribute scope)

/-! ## Items -/

def buildField (f : Tree.Field) : Except BuildError Field := do
  let type ← buildType f.type
  let attributes ← buildAttributes .field f.attributes
  return { name := f.name, type, attributes, location := f.location }

def buildVariant (v : Tree.Variant) : Except BuildError Variant := do
  let payload ← v.payload.mapM buildType
  let attributes ← buildAttributes .field v.attributes
  return { name := v.name, payload, attributes, location := v.location }

def checkName (what name : String) (location : Location) : Except BuildError Unit :=
  if startsUpper name then .ok () else .error ⟨.lowercaseName what name, location⟩

def buildItem : Tree.Item → Except BuildError Item
  | .struct s => do
    checkName "struct" s.name s.location
    let fields ← s.fields.mapM buildField
    let attributes ← buildAttributes .type s.attributes
    return .struct { name := s.name, role := s.role, fields, attributes, location := s.location }
  | .enum e => do
    checkName "enum" e.name e.location
    let variants ← e.variants.mapM buildVariant
    let attributes ← buildAttributes .type e.attributes
    return .enum { name := e.name, variants, attributes, location := e.location }

def builtItem? (item : Tree.Item) : Option Item :=
  match buildItem item with
  | .ok built => some built
  | .error _ => none

def buildError? (item : Tree.Item) : Option BuildError :=
  match buildItem item with
  | .ok _ => none
  | .error e => some e

def buildMethod (m : Tree.Method) : Method :=
  { verb := m.verb, path := m.path, items := m.items.filterMap builtItem?, location := m.location }

def buildEndpoint (e : Tree.Endpoint) : Endpoint :=
  { name := e.name, isPublic := e.isPublic, methods := e.methods.map buildMethod,
    location := e.location }

/-- A schema and the errors of the items it leaves out, in source order. -/
structure Built where
  schema : Schema
  errors : List BuildError

def build (source : Tree.Source) : Built :=
  { schema := { unit := source.unit, endpoints := source.endpoints.map buildEndpoint }
    errors := source.endpoints.flatMap fun e => e.methods.flatMap fun m =>
      m.items.filterMap buildError? }

end Schema
end EndpointDsl
