import EndpointDsl.Path.Template
import EndpointDsl.Source.Location
import EndpointDsl.Vocabulary

/-!
The schema of a unit: endpoints, their methods, and the structures and enums each method declares.

Types are classified and attributes carry the place they stand in.  What analysis finds out about
an item is kept in the item: its capability, the wire names of its members, and how its fields
behave when absent.  Before analysis those parts have their defaults.
-/

namespace EndpointDsl
namespace Schema

inductive TypeDesc
  | primitive (name : String)
  | collection (item : TypeDesc)
  | reference (name : String)
  | optional (inner : TypeDesc)
  deriving DecidableEq, Repr, Inhabited

namespace TypeDesc

def isOptional : TypeDesc → Bool
  | optional _ => true
  | _ => false

/-- The type in the notation of the language. -/
def describe : TypeDesc → String
  | primitive name => name
  | reference name => name
  | collection item => "Vec<" ++ item.describe ++ ">"
  | optional inner => "?" ++ inner.describe

/-- The names a type refers to, through collections and optionals. -/
def references : TypeDesc → List String
  | primitive _ => []
  | reference name => [name]
  | collection item => item.references
  | optional inner => inner.references

end TypeDesc

/-- Whether an attribute stands before a type or before a member of one. -/
inductive AttributeScope
  | type
  | field
  deriving DecidableEq, Repr, Inhabited

inductive AttributeKind
  /-- A casing style for the names of all members. -/
  | renameAll (style : String)
  /-- The wire name of one member. -/
  | rename (name : String)
  /-- The field that signals a failed response. -/
  | isError
  /-- A request for builder methods. -/
  | builder
  /-- A fallback to the zero value when a field is missing. -/
  | default
  deriving DecidableEq, Repr, Inhabited

structure Attribute where
  kind : AttributeKind
  scope : AttributeScope
  location : Location
  deriving DecidableEq, Repr, Inhabited

/-- What a structure or enum can be used for. -/
structure Capability where
  encode : Bool := false
  decode : Bool := false
  urlEncoded : Bool := false
  deriving DecidableEq, Repr, Inhabited

structure Field where
  name : String
  type : TypeDesc
  attributes : List Attribute
  location : Location
  wireName : Option String := none
  isError : Bool := false
  hasDefault : Bool := false
  omitIfAbsent : Bool := false
  defaultIfMissing : Bool := false
  deriving DecidableEq, Repr, Inhabited

def Field.isOptional (f : Field) : Bool := f.type.isOptional

structure Variant where
  name : String
  payload : Option TypeDesc
  attributes : List Attribute
  location : Location
  wireName : Option String := none
  deriving DecidableEq, Repr, Inhabited

structure Struct where
  name : String
  role : Option Role
  fields : List Field
  attributes : List Attribute
  location : Location
  capability : Capability := {}
  deriving DecidableEq, Repr, Inhabited

namespace Struct

def isBuilder (s : Struct) : Bool := s.attributes.any fun a => a.kind == .builder

def errorField? (s : Struct) : Option Field := s.fields.find? (·.isError)

end Struct

structure Enum where
  name : String
  variants : List Variant
  attributes : List Attribute
  location : Location
  capability : Capability := {}
  deriving DecidableEq, Repr, Inhabited

inductive Item
  | struct (decl : Struct)
  | enum (decl : Enum)
  deriving DecidableEq, Repr, Inhabited

/-- A reference and the place of the member that makes it. -/
structure Reference where
  name : String
  location : Location
  deriving DecidableEq, Repr, Inhabited

namespace Item

def name : Item → String
  | struct s => s.name
  | enum e => e.name

def location : Item → Location
  | struct s => s.location
  | enum e => e.location

def capability : Item → Capability
  | struct s => s.capability
  | enum e => e.capability

def withCapability (c : Capability) : Item → Item
  | struct s => struct { s with capability := c }
  | enum e => enum { e with capability := c }

def role? : Item → Option Role
  | struct s => s.role
  | enum _ => none

def struct? : Item → Option Struct
  | struct s => some s
  | enum _ => none

def enum? : Item → Option Enum
  | struct _ => none
  | enum e => some e

/-- The references made by the fields or the payloads of an item, in order. -/
def references : Item → List Reference
  | struct s => s.fields.flatMap fun f => f.type.references.map (⟨·, f.location⟩)
  | enum e => e.variants.flatMap fun v =>
    match v.payload with
    | none => []
    | some type => type.references.map (⟨·, v.location⟩)

end Item

structure Method where
  verb : Verb
  path : PathTemplate
  items : List Item
  location : Location
  deriving DecidableEq, Repr, Inhabited

namespace Method

def structures (m : Method) : List Struct := m.items.filterMap Item.struct?

def enums (m : Method) : List Enum := m.items.filterMap Item.enum?

/-- The first structure with a role, or without one. -/
def findRole? (m : Method) (role : Option Role) : Option Struct :=
  m.structures.find? (·.role == role)

/-- The verb and the path as messages quote them. -/
def describe (m : Method) : String := s!"{m.verb.name} \"{m.path.raw}\""

end Method

structure Endpoint where
  name : String
  isPublic : Bool
  methods : List Method
  location : Location
  deriving DecidableEq, Repr, Inhabited

end Schema

structure Schema where
  unit : String
  endpoints : List Schema.Endpoint
  deriving DecidableEq, Repr, Inhabited

end EndpointDsl
