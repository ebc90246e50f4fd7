import EndpointDsl.Schema.Capability
import EndpointDsl.Schema.Rules.Member
import EndpointDsl.Schema.Rules.Method
import EndpointDsl.Schema.Rules.Uniqueness

/-!
Analysis of a schema: every rule is checked, and every item gets its capability, wire names and
flags.  No violation stops the analysis; the errors come in source order.
-/

namespace EndpointDsl
namespace Schema

/-- Gives the items of a method their capabilities from the front of a list, and hands on the
rest of the list. -/
def takeCapabilities : List Item → List Capability → List Item × List Capability
  | [], caps => ([], caps)
  | i :: rest, [] => (i :: rest, [])
  | i :: rest, c :: caps =>
    let (items, left) := takeCapabilities rest caps
    (i.withCapability c :: items, left)

def assignMethods : List Method → List Capability → List Method
  | [], _ => []
  | m :: rest, caps =>
    let (items, left) := takeCapabilities m.items caps
    { m with items } :: assignMethods rest left

/-- The endpoint with the capability of every item. -/
def Endpoint.withCapabilities (e : Endpoint) : Endpoint :=
  { e with methods := assignMethods e.methods (capabilities e).capabilities }

def Endpoint.items (e : Endpoint) : List Item := e.methods.flatMap (·.items)

def endpointErrors (e : Endpoint) : List SemanticError :=
  methodNameErrors e.name {} e.methods ++
    methodErrorsFrom e.name e.entries 0 e.methods ++
    e.withCapabilities.items.flatMap memberErrors

def resolveEndpoint (e : Endpoint) : Endpoint :=
  let e := e.withCapabilities
  { e with methods := e.methods.map fun m => { m with items := m.items.map resolveItem } }

def bySource {α : Type} (errors : List (Located α)) : List (Located α) :=
  errors.mergeSort fun a b => decide (a.location.offset ≤ b.location.offset)

/-- What analysis finds: the schema with all that was resolved, the errors in source order, and
the passes that the capabilities of each endpoint took. -/
structure Analyzed where
  schema : Schema
  errors : List SemanticError
  rounds : List (String × Nat)

def analyze (schema : Schema) : Analyzed :=
  { schema := { schema with endpoints := schema.endpoints.map resolveEndpoint }
    errors := bySource (endpointNameErrors [] [] schema.endpoints ++
      schema.endpoints.flatMap endpointErrors)
    rounds := schema.endpoints.map fun e => (e.name, (capabilities e).rounds) }

end Schema
end EndpointDsl
