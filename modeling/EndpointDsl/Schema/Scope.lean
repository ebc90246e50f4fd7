import EndpointDsl.Schema.Basic

/-!
Which item a name refers to.

A name is looked up among the items of the method that uses it and then among all items of the
endpoint, in declaration order.  The first declaration wins.
-/

namespace EndpointDsl
namespace Schema

/-- An item of an endpoint together with the method that declares it. -/
structure Entry where
  methodIndex : Nat
  method : Method
  item : Item
  deriving DecidableEq, Repr, Inhabited

def methodEntries (index : Nat) (m : Method) : List Entry := m.items.map (⟨index, m, ·⟩)

def entriesFrom (index : Nat) : List Method → List Entry
  | [] => []
  | m :: rest => methodEntries index m ++ entriesFrom (index + 1) rest

/-- Every item of an endpoint in declaration order. -/
def Endpoint.entries (e : Endpoint) : List Entry := entriesFrom 0 e.methods

/-- The position of the entry that a name refers to, seen from a method. -/
def resolveIndex? (entries : List Entry) (methodIndex : Nat) (name : String) : Option Nat :=
  match entries.findIdx? (fun x => x.methodIndex == methodIndex && x.item.name == name) with
  | some i => some i
  | none => entries.findIdx? (fun x => x.item.name == name)

def resolve? (entries : List Entry) (methodIndex : Nat) (name : String) : Option Entry :=
  (resolveIndex? entries methodIndex name).bind (entries[·]?)

end Schema
end EndpointDsl
