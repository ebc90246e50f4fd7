import EndpointDsl.Name.Identifier
import EndpointDsl.Schema.Basic

/-!
What a schema declares, one row for each structure and enum.
-/

namespace EndpointDsl
namespace Overview

open Schema

def headers : List String := ["Endpoint", "Method", "Identifier", "Item", "Role", "Capabilities"]

/-- What stands in a column that does not apply. -/
def nothing : String := "-"

def capabilityText (c : Capability) : String :=
  let names := [("encode", c.encode), ("decode", c.decode), ("url-encoded", c.urlEncoded)].filterMap
    fun entry => if entry.2 then some entry.1 else none
  if names.isEmpty then nothing else String.intercalate ", " names

def roleText : Item → String
  | .struct s => (s.role.map Role.name).getD "struct"
  | .enum _ => "enum"

def endpointText (e : Endpoint) : String := if e.isPublic then "pub " ++ e.name else e.name

def methodRows (endpoint : String) (m : Method) : List (List String) :=
  let start := [endpoint, m.verb.name ++ " " ++ m.path.raw, m.identifier]
  if m.items.isEmpty then [start ++ [nothing, nothing, nothing]]
  else m.items.map fun i => start ++ [i.name, roleText i, capabilityText i.capability]

def rows (schema : Schema) : List (List String) :=
  schema.endpoints.flatMap fun e => e.methods.flatMap (methodRows (endpointText e))

end Overview
end EndpointDsl
