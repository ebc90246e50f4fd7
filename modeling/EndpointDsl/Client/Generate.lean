import EndpointDsl.Client.Docs
import EndpointDsl.Client.Module
import EndpointDsl.Schema.Rules.Method
import EndpointDsl.Schema.Scope

/-!
From an analysed endpoint to its module.

Generation relies on what analysis established and checks it: what it cannot turn into a
declaration is refused with a cause.
-/

namespace EndpointDsl
namespace Client

open Schema (Endpoint Entry Item Method Struct Enum Field Variant)

abbrev Gen := Except GenerationCause

/-- The class of a name, as seen from a method. -/
def classFor (endpoint : String) (entries : List Entry) (methodIndex : Nat) (name : String) :
    Gen String :=
  match Schema.resolve? entries methodIndex name with
  | some x => .ok (x.method.className x.item.name)
  | none => .error (.unresolvedReference name (some endpoint))

/-! ## Classes -/

def structBase (s : Struct) : Gen Base :=
  let c := s.capability
  if c.urlEncoded then .ok .queryEncodable
  else if c.encode && c.decode then .ok .both
  else if c.encode then .ok .encodable
  else if c.decode then .ok .decodable
  else .error (.structWithoutCapability s.name)

def fieldFallback (f : Field) : Gen Fallback :=
  if f.isOptional then .ok .absent
  else if f.hasDefault then (Zero.ofType f.type).map .zero
  else .ok .required

def fieldDef (className : String → Gen String) (struct : String) (f : Field) : Gen FieldDef := do
  let wire ← match f.wireName with
    | some wire => .ok wire
    | none => .error (.fieldWithoutWireName f.name struct)
  let fieldType ← FieldType.ofType className f.type
  let fallback ← fieldFallback f
  return { attr := Name.attributeName f.name, fieldType, wire, fallback }

/-- The attribute of the last marked field. -/
def errorAttr? (s : Struct) : Option String :=
  (s.fields.reverse.find? (·.isError)).map fun f => Name.attributeName f.name

def structClass (className : String → Gen String) (m : Method) (s : Struct) : Gen ClassDef := do
  let base ← structBase s
  let fields ← s.fields.mapM (fieldDef className s.name)
  return {
    name := m.className s.name
    base
    doc := Docs.struct m s
    fields
    builder := s.isBuilder
    omitted := (s.fields.filter (·.omitIfAbsent)).map fun f => Name.attributeName f.name
    errorAttr := errorAttr? s }

def variantType (className : String → Gen String) (v : Variant) : Gen FieldType :=
  match v.payload with
  | none => .ok .unit
  | some type => FieldType.ofOptionalType className type

def variantDef (className : String → Gen String) (enum : String) (v : Variant) : Gen FieldDef := do
  let wire ← match v.wireName with
    | some wire => .ok wire
    | none => .error (.variantWithoutWireName v.name enum)
  let fieldType ← variantType className v
  return { attr := Name.attributeName v.name, fieldType, wire, fallback := .absent }

def hasRequiredPayload (v : Variant) : Bool :=
  match v.payload with
  | none => false
  | some type => !type.isOptional

def enumClass (className : String → Gen String) (m : Method) (e : Enum) : Gen ClassDef := do
  if e.variants.isEmpty then throw (.enumWithoutVariants e.name)
  if !(e.capability.encode || e.capability.decode) then throw (.enumWithoutCapability e.name)
  let fields ← e.variants.mapM (variantDef className e.name)
  return {
    name := m.className e.name
    base := .enum
    doc := Docs.enum m e
    fields
    units := (e.variants.filter (·.payload.isNone)).map fun v => Name.attributeName v.name
    payloadRequired := (e.variants.filter hasRequiredPayload).map fun v => Name.attributeName v.name }

def itemClass (className : String → Gen String) (m : Method) : Item → Gen ClassDef
  | .struct s => structClass className m s
  | .enum e => enumClass className m e

/-! ## Functions -/

/-- The first of the roles whose structure has a field of the given name. -/
def coveringRole? (m : Method) (parameter : String) : Option Role :=
  Schema.pathRoles.find? fun role =>
    match m.findRole? (some role) with
    | some s => s.fields.any (·.name == parameter)
    | none => false

def pathValue (m : Method) (parameter : String) : Gen PathValue :=
  match coveringRole? m parameter with
  | some role => .ok ⟨parameter, role, Name.attributeName parameter⟩
  | none => .error (.uncoveredParameter parameter m.verb m.path.raw)

/-- The arguments for the roles that the method has, in the order given. -/
def paramsFor (m : Method) (roles : List Role) : List Param :=
  roles.filterMap fun role =>
    (m.findRole? (some role)).map fun s => ⟨role, m.className s.name⟩

/-- The wire names of the query fields that fill path parameters. -/
def excludedKeys (m : Method) (query : Struct) : List String :=
  (query.fields.filter fun f => m.path.parameters.contains f.name).map fun f =>
    f.wireName.getD f.name

def responseFunction (m : Method) : List FunctionDef :=
  match (m.findRole? (some .response)) <|> m.findRole? (some .reqRes) with
  | some s =>
    [{ name := s!"parse_{m.identifier}_response", doc := Docs.response m s,
       body := .response (m.className s.name) }]
  | none => []

def headersFunction (m : Method) : List FunctionDef :=
  match m.findRole? (some .header) with
  | some s =>
    [{ name := s!"parse_{m.identifier}_headers", doc := Docs.headers m,
       body := .headers (m.className s.name) }]
  | none => []

def methodFunctions (m : Method) : Gen (List FunctionDef) := do
  let values ← m.path.distinctParameters.mapM (pathValue m)
  let query? := m.findRole? (some .query)
  let uriRoles := Schema.pathRoles.filter fun role =>
    (role == .query && query?.isSome) || values.any (·.role == role)
  let uri : FunctionDef := {
    name := m.identifier ++ "_uri"
    doc := Docs.uri m query?.isSome
    body := .uri (paramsFor m uriRoles) m.path.raw values (query?.map (excludedKeys m)) }
  let bodyRole := [Role.request, .reqRes].find? fun role => (m.findRole? (some role)).isSome
  let request : FunctionDef := {
    name := s!"build_{m.identifier}_request"
    doc := Docs.request m
    body := .request (paramsFor m [.query, .request, .reqRes, .header]) m.verb uri.name uriRoles
      (m.findRole? (some .header)).isSome bodyRole }
  return uri :: request :: responseFunction m ++ headersFunction m

/-! ## Modules -/

def methodParts (endpoint : String) (entries : List Entry) (index : Nat) (m : Method) :
    Gen (List ClassDef × List FunctionDef) := do
  let classes ← m.items.mapM (itemClass (classFor endpoint entries index) m)
  let functions ← methodFunctions m
  return (classes, functions)

def partsFrom (endpoint : String) (entries : List Entry) (index : Nat) :
    List Method → Gen (List ClassDef × List FunctionDef)
  | [] => .ok ([], [])
  | m :: rest => do
    let (classes, functions) ← methodParts endpoint entries index m
    let (others, more) ← partsFrom endpoint entries (index + 1) rest
    return (classes ++ others, functions ++ more)

/-- The module of an endpoint. -/
def ofEndpoint (unit : String) (e : Endpoint) : Gen Module := do
  let (classes, functions) ← partsFrom e.name e.entries 0 e.methods
  return {
    endpoint := e.name
    name := e.moduleName
    unit
    doc := Docs.module_ e
    isPublic := e.isPublic
    classes
    functions }

/-- One module per endpoint, in order. -/
def generate (schema : Schema) : Gen (List Module) := schema.endpoints.mapM (ofEndpoint schema.unit)

end Client
end EndpointDsl
