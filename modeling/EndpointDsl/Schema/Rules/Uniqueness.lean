import EndpointDsl.Json.Value
import EndpointDsl.Name.Identifier
import EndpointDsl.Schema.SemanticError

/-!
Names that must differ across a unit or an endpoint: endpoints and their modules, routes, method
identifiers and class names.  Each rule walks the declarations in order and compares a name with
those of the declarations before it.
-/

namespace EndpointDsl
namespace Schema

/-- Endpoint names and module names.  `names` are the endpoints seen so far, `modules` the module
names in use with the endpoints that use them.  An endpoint whose own name is taken is not
compared any further. -/
def endpointNameErrors (names : List String) (modules : List (String × String)) :
    List Endpoint → List SemanticError
  | [] => []
  | e :: rest =>
    if names.contains e.name then
      ⟨.duplicateEndpoint e.name, e.location⟩ :: endpointNameErrors names modules rest
    else
      match lookup? e.moduleName modules with
      | some other =>
        ⟨.moduleTaken e.name e.moduleName other, e.location⟩ ::
          endpointNameErrors (e.name :: names) modules rest
      | none => endpointNameErrors (e.name :: names) ((e.moduleName, e.name) :: modules) rest

/-- What the methods seen so far have taken: routes, identifiers with the description of the
method that uses them, and class names. -/
structure Taken where
  routes : List (Verb × String) := []
  identifiers : List (String × String) := []
  classes : List String := []

/-- Class names of the items of one method, with the names taken afterwards. -/
def classNameErrors (m : Method) : List String → List Item → List SemanticError × List String
  | classes, [] => ([], classes)
  | classes, i :: rest =>
    let name := m.className i.name
    let (errors, taken) := classNameErrors m (name :: classes) rest
    (if classes.contains name then ⟨.classTaken name, i.location⟩ :: errors else errors, taken)

/-- Routes, identifiers and class names of the methods of an endpoint.  A repeated route is
compared no further, a taken identifier gives no class names. -/
def methodNameErrors (endpoint : String) (taken : Taken) : List Method → List SemanticError
  | [] => []
  | m :: rest =>
    let route := (m.verb, m.path.raw)
    if taken.routes.contains route then
      ⟨.duplicateMethod m.describe endpoint, m.location⟩ :: methodNameErrors endpoint taken rest
    else
      let routes := route :: taken.routes
      match lookup? m.identifier taken.identifiers with
      | some other =>
        ⟨.identifierTaken m.describe m.identifier other, m.location⟩ ::
          methodNameErrors endpoint { taken with routes } rest
      | none =>
        let (errors, classes) := classNameErrors m taken.classes m.items
        errors ++ methodNameErrors endpoint
          { routes, identifiers := (m.identifier, m.describe) :: taken.identifiers, classes } rest

end Schema
end EndpointDsl
