import EndpointDsl.Path.Template
import EndpointDsl.Source.Location
import EndpointDsl.Vocabulary

/-!
The tree of a source text, as written.

Names and type expressions are not resolved here, and attributes keep the form they have in the
brackets.  Verbs, roles and path templates belong to closed sets that the grammar knows, so a tree
holds only valid ones.
-/

namespace EndpointDsl
namespace Tree

/-- A type expression such as `?Vec<?String>`. -/
structure TypeExpr where
  name : String
  optional : Bool
  args : List TypeExpr
  location : Location
  deriving Repr, Inhabited

/-- One entry between attribute brackets. -/
inductive AttributeEntry
  | literal (value : String)
  | flag (key : String)
  | setting (key value : String)
  deriving DecidableEq, Repr, Inhabited

structure AttributeItem where
  entry : AttributeEntry
  location : Location
  deriving DecidableEq, Repr, Inhabited

structure Attribute where
  items : List AttributeItem
  location : Location
  deriving DecidableEq, Repr, Inhabited

structure Field where
  name : String
  type : TypeExpr
  attributes : List Attribute
  location : Location
  deriving Repr, Inhabited

structure Variant where
  name : String
  payload : Option TypeExpr
  attributes : List Attribute
  location : Location
  deriving Repr, Inhabited

structure Struct where
  name : String
  role : Option Role
  fields : List Field
  attributes : List Attribute
  location : Location
  deriving Repr, Inhabited

structure Enum where
  name : String
  variants : List Variant
  attributes : List Attribute
  location : Location
  deriving Repr, Inhabited

inductive Item
  | struct (decl : Struct)
  | enum (decl : Enum)
  deriving Repr, Inhabited

structure Method where
  verb : Verb
  path : PathTemplate
  pathLocation : Location
  items : List Item
  location : Location
  deriving Repr, Inhabited

structure Endpoint where
  name : String
  isPublic : Bool
  methods : List Method
  location : Location
  deriving Repr, Inhabited

structure Source where
  unit : String
  endpoints : List Endpoint
  deriving Repr, Inhabited

end Tree
end EndpointDsl
