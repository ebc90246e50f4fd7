import EndpointDsl.Schema.Analysis

/-!
What a schema must satisfy before modules can be made from it.

The rules are stated level by level: the unit, an endpoint, a method, a structure or enum, and the
attributes of a type or of a member.  Nothing here says how the rules are checked or in which
order; `Proofs/Schema/Analysis.lean` shows that analysis is silent about exactly the schemas that
satisfy them.
-/

namespace EndpointDsl
namespace Schema

/-! ## Attributes -/

def isRename (a : Attribute) : Bool :=
  match a.kind with
  | .rename _ => true
  | _ => false

/-- Before a type stand builder marks and at most one style, which must be a known one. -/
structure TypeAttributes (attributes : List Attribute) : Prop where
  placed : ∀ a ∈ attributes, a.kind = .builder ∨ isRenameAll a = true
  styledOnce : attributes.countP isRenameAll ≤ 1
  styleKnown : ∀ a ∈ attributes, ∀ style, a.kind = .renameAll style →
    ∃ s : Casing.Style, s.name = style

/-- Before a member stands no attribute of types, and at most one wire name, which is not empty. -/
structure MemberAttributes (attributes : List Attribute) : Prop where
  placed : ∀ a ∈ attributes, a.kind ≠ .builder ∧ isRenameAll a = false
  renamedOnce : attributes.countP isRename ≤ 1
  renameGiven : ∀ a ∈ attributes, a.kind ≠ .rename ""

/-- Whether a field of a type can do without a value: it is absent, or has a zero value. -/
def HasZero : TypeDesc → Prop
  | .primitive name => name ≠ "Date" ∧ name ≠ "DateTime"
  | .collection _ => True
  | .optional _ => True
  | .reference _ => False

/-- A default is given at most once, and only to a field that is received and has a zero value. -/
structure FieldDefault (decoded : Bool) (f : Field) : Prop where
  once : f.attributes.countP (·.kind == .default) ≤ 1
  granted : (∃ a ∈ f.attributes, a.kind = .default) → decoded = true ∧ HasZero f.type

/-! ## Items -/

/-- Whether a field is to signal a failed response. -/
def Field.signalsError (f : Field) : Bool := f.attributes.any (·.kind == .isError)

def Struct.wireNames (s : Struct) : List String :=
  s.fields.map fun f => wireName (typeStyle s.attributes) f.attributes f.name

def Struct.attributeNames (s : Struct) : List String :=
  s.fields.map fun f => Name.attributeName f.name

structure Struct.WellFormed (s : Struct) : Prop where
  attributes : TypeAttributes s.attributes
  fieldNames : (s.fields.map (·.name)).Nodup
  members : ∀ f ∈ s.fields, MemberAttributes f.attributes
  defaults : ∀ f ∈ s.fields, FieldDefault s.capability.decode f
  errorOnce : s.fields.countP Field.signalsError ≤ 1
  errorDecoded : ∀ f ∈ s.fields, f.signalsError = true → s.capability.decode = true
  wires : s.wireNames.Nodup
  attrs : s.attributeNames.Nodup

def Enum.wireNames (e : Enum) : List String :=
  e.variants.map fun v => wireName (typeStyle e.attributes) v.attributes v.name

def Enum.attributeNames (e : Enum) : List String :=
  e.variants.map fun v => Name.attributeName v.name

structure Enum.WellFormed (e : Enum) : Prop where
  attributes : TypeAttributes e.attributes
  noBuilder : ∀ a ∈ e.attributes, a.kind ≠ .builder
  inhabited : e.variants ≠ []
  variantNames : (e.variants.map (·.name)).Nodup
  members : ∀ v ∈ e.variants, MemberAttributes v.attributes
  plain : ∀ v ∈ e.variants, ∀ a ∈ v.attributes, a.kind ≠ .isError ∧ a.kind ≠ .default
  wires : e.wireNames.Nodup
  attrs : e.attributeNames.Nodup

def Item.WellFormed : Item → Prop
  | .struct s => s.WellFormed
  | .enum e => e.WellFormed

/-! ## Methods, endpoints and units -/

/-- The fields that may fill path parameters. -/
def Method.pathFields (m : Method) : List Field :=
  (m.structures.filter Struct.fillsPath).flatMap (·.fields)

/-- Whether some method of the endpoint declares an item of the name. -/
def Endpoint.Declares (e : Endpoint) (name : String) : Prop :=
  ∃ m ∈ e.methods, ∃ i ∈ m.items, i.name = name

def Method.roles (m : Method) : List Role := m.items.filterMap Item.role?

structure Method.WellFormed (e : Endpoint) (m : Method) : Prop where
  itemNames : (m.items.map (·.name)).Nodup
  roles : m.roles.Nodup
  bodies : .reqRes ∈ m.roles → .request ∉ m.roles ∧ .response ∉ m.roles
  references : ∀ i ∈ m.items, ∀ r ∈ i.references, e.Declares r.name
  parameters : m.path.parameters.Nodup
  /-- Exactly one field has the name of a parameter, and it holds a scalar. -/
  covered : ∀ p ∈ m.path.parameters,
    ∃ f scalar, m.pathFields.filter (·.name == p) = [f] ∧ f.type = .primitive scalar

def Method.route (m : Method) : Verb × String := (m.verb, m.path.raw)

def Method.classNames (m : Method) : List String := m.items.map fun i => m.className i.name

/-- The items of an endpoint are taken with the capabilities that their use gives them. -/
structure Endpoint.WellFormed (e : Endpoint) : Prop where
  routes : (e.methods.map (·.route)).Nodup
  identifiers : (e.methods.map (·.identifier)).Nodup
  classes : (e.methods.flatMap (·.classNames)).Nodup
  methods : ∀ m ∈ e.methods, m.WellFormed e
  items : ∀ i ∈ e.withCapabilities.items, i.WellFormed

end Schema

structure Schema.WellFormed (s : Schema) : Prop where
  endpointNames : (s.endpoints.map (·.name)).Nodup
  moduleNames : (s.endpoints.map (·.moduleName)).Nodup
  endpoints : ∀ e ∈ s.endpoints, e.WellFormed

end EndpointDsl
