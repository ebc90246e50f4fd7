import EndpointDsl.Schema.Scope
import EndpointDsl.Schema.SemanticError

/-!
Rules of one method: its items have different names and different roles, every reference
resolves, no two structures describe the same body, and every path parameter is filled by exactly
one field, which is a plain scalar.
-/

namespace EndpointDsl
namespace Schema

/-- The references of an item that no declaration answers. -/
def referenceErrors (endpoint : String) (entries : List Entry) (methodIndex : Nat) (m : Method)
    (i : Item) : List SemanticError :=
  i.references.filterMap fun r =>
    match resolveIndex? entries methodIndex r.name with
    | some _ => none
    | none => some ⟨.unknownType r.name m.describe endpoint, r.location⟩

def roleErrors (m : Method) (roles : List Role) (i : Item) : List SemanticError :=
  match i.role? with
  | some role => if roles.contains role then [⟨.duplicateRole m.describe role, i.location⟩] else []
  | none => []

/-- Item by item, with the names and roles of the items before it. -/
def itemErrors (endpoint : String) (entries : List Entry) (methodIndex : Nat) (m : Method)
    (names : List String) (roles : List Role) : List Item → List SemanticError
  | [] => []
  | i :: rest =>
    (if names.contains i.name then [⟨.duplicateItem i.name m.describe, i.location⟩] else []) ++
      roleErrors m roles i ++
      referenceErrors endpoint entries methodIndex m i ++
      itemErrors endpoint entries methodIndex m (i.name :: names) (i.role?.toList ++ roles) rest

/-- Two structures for one body; reported at the second of the two roles. -/
def bodyConflict (m : Method) (first second : Role) (what : String) : List SemanticError :=
  match m.findRole? (some first), m.findRole? (some second) with
  | some _, some s => [⟨.bodyConflict m.describe first second what, s.location⟩]
  | _, _ => []

/-- Roles whose fields may fill path parameters, in the order in which they are asked. -/
def pathRoles : List Role := [.query, .request, .reqRes]

def Struct.fillsPath (s : Struct) : Bool :=
  match s.role with
  | some role => pathRoles.contains role
  | none => false

/-- The fields of a given name that may fill a parameter, with their structures. -/
def covering (m : Method) (name : String) : List (Struct × Field) :=
  (m.structures.filter Struct.fillsPath).flatMap fun s =>
    (s.fields.filter (·.name == name)).map (s, ·)

def isPrimitiveType : TypeDesc → Bool
  | .primitive _ => true
  | _ => false

def coverageErrors (m : Method) (name : String) : List SemanticError :=
  match covering m name with
  | [] => [⟨.uncoveredParameter name m.describe, m.location⟩]
  | [(_, f)] =>
    if f.isOptional then [⟨.optionalPathField f.name, f.location⟩]
    else if isPrimitiveType f.type then []
    else [⟨.compoundPathField f.name, f.location⟩]
  | owners => [⟨.ambiguousParameter name m.describe (owners.map (·.1.name)), m.location⟩]

def pathErrors (m : Method) : List SemanticError :=
  let names := m.path.distinctParameters
  (names.filterMap fun name =>
    let count := m.path.parameters.count name
    if 1 < count then some ⟨.repeatedParameter name count m.path.raw, m.location⟩ else none) ++
    names.flatMap (coverageErrors m)

def methodErrors (endpoint : String) (entries : List Entry) (methodIndex : Nat) (m : Method) :
    List SemanticError :=
  itemErrors endpoint entries methodIndex m [] [] m.items ++
    bodyConflict m .request .reqRes "request body" ++
    bodyConflict m .response .reqRes "response body" ++
    pathErrors m

def methodErrorsFrom (endpoint : String) (entries : List Entry) (index : Nat) :
    List Method → List SemanticError
  | [] => []
  | m :: rest =>
    methodErrors endpoint entries index m ++ methodErrorsFrom endpoint entries (index + 1) rest

end Schema
end EndpointDsl
