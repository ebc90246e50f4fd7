import EndpointDsl.Schema.Scope

/-!
Capabilities of the items of an endpoint.

A structure with a role has the capability of its role.  Structures without a role, and enums,
inherit from the items that refer to them, through chains of references; one that nothing refers
to can be sent and received, and so can one that only a cycle without any capability refers to.
-/

namespace EndpointDsl
namespace Schema

def Capability.both : Capability := { encode := true, decode := true }

/-- Adds the directions of another capability.  Only a role makes an item URL-encoded. -/
def Capability.merge (c other : Capability) : Capability :=
  { c with encode := c.encode || other.encode, decode := c.decode || other.decode }

def roleCapability : Role → Capability
  | .header => .both
  | .request => { encode := true }
  | .response => { decode := true }
  | .reqRes => .both
  | .query => { encode := true, urlEncoded := true }

/-- Whether an item has the capabilities of its users instead of those of a role. -/
def Item.inherits (i : Item) : Bool := i.role?.isNone

/-- The positions that the references of an entry resolve to. -/
def targets (entries : List Entry) (x : Entry) : List Nat :=
  x.item.references.filterMap fun r => resolveIndex? entries x.methodIndex r.name

/-- Every resolved reference, as the positions of its user and of its target. -/
def allEdgesFrom (entries : List Entry) (position : Nat) : List Entry → List (Nat × Nat)
  | [] => []
  | x :: rest =>
    (targets entries x).map (position, ·) ++ allEdgesFrom entries (position + 1) rest

def allEdges (entries : List Entry) : List (Nat × Nat) := allEdgesFrom entries 0 entries

def inheritsAt (entries : List Entry) (i : Nat) : Bool :=
  match entries[i]? with
  | some x => x.item.inherits
  | none => false

/-- The references along which capabilities flow: those to items that inherit. -/
def edges (entries : List Entry) : List (Nat × Nat) :=
  (allEdges entries).filter fun e => inheritsAt entries e.2

def seed (referenced : List Nat) (position : Nat) (i : Item) : Capability :=
  match i.role? with
  | some role => roleCapability role
  | none => if referenced.contains position then {} else .both

def seedsFrom (referenced : List Nat) (position : Nat) : List Entry → List Capability
  | [] => []
  | x :: rest => seed referenced position x.item :: seedsFrom referenced (position + 1) rest

/-- The capabilities before anything has flowed. -/
def seeds (entries : List Entry) : List Capability :=
  seedsFrom ((allEdges entries).map (·.2)) 0 entries

/-- One edge: the target gains what its user has. -/
def flow (caps : List Capability) (edge : Nat × Nat) : List Capability :=
  match caps[edge.1]?, caps[edge.2]? with
  | some user, some target => caps.set edge.2 (target.merge user)
  | _, _ => caps

/-- All edges once, in order. -/
def pass (edges : List (Nat × Nat)) (caps : List Capability) : List Capability :=
  edges.foldl flow caps

/-- Passes until one changes nothing, with the number of passes.  Each pass before the last sets
a flag of some item, so twice the number of items and one more always suffice. -/
def settle (edges : List (Nat × Nat)) : Nat → List Capability → List Capability × Nat
  | 0, caps => (caps, 0)
  | fuel + 1, caps =>
    let next := pass edges caps
    if next = caps then (caps, 1)
    else
      let (final, rounds) := settle edges fuel next
      (final, rounds + 1)

/-- Items that inherit and got nothing. -/
def fallback (x : Entry) (c : Capability) : Capability :=
  if x.item.inherits && !(c.encode || c.decode) then .both else c

structure Settled where
  capabilities : List Capability
  rounds : Nat

def capabilities (e : Endpoint) : Settled :=
  let entries := e.entries
  let (caps, rounds) := settle (edges entries) (2 * entries.length + 1) (seeds entries)
  { capabilities := entries.zipWith fallback caps, rounds }

end Schema
end EndpointDsl
