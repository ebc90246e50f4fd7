import EndpointDsl.Client.Module

/-!
How deep a program may nest the values that it gives, and the instances that it writes.

The reader of a class is put together from the readers of the classes that its fields name.  A
class that it meets only once becomes a part of it; a class that it meets again is shared, and is
entered by reference.  A class whose own reader is older is entered through that reader, which
enters the class by reference once more if it shares it.  Of all these references no more than 255
may be open at once.  The writer of a class is put together from the same parts in the same way.
-/

namespace EndpointDsl
namespace Wire

open Client (ClassDef Module)

/-- How the reader of a class enters other classes. -/
structure Reader where
  name : String
  /-- The classes that it enters by reference. -/
  shared : List String
  /-- The classes that have a reader before this one is made. -/
  older : List String
  deriving DecidableEq, Repr, Inhabited

namespace Reader

/-- The classes that the fields of a class name, with repetitions. -/
def references (m : Module) (name : String) : List String :=
  ((m.class? name).map fun c => c.fields.filterMap (·.fieldType.className?)).getD []

/-- The classes seen so far, and those that are named by fields of the ones in `next`. -/
def collect (m : Module) : Nat → List String → List String → List String
  | 0, seen, _ => seen
  | _ + 1, seen, [] => seen
  | fuel + 1, seen, name :: next =>
    let found := (references m name).eraseDups.filter (!seen.contains ·)
    collect m fuel (seen ++ found) (next ++ found)

/-- A class and all classes that its values may hold. -/
def reachable (m : Module) (name : String) : List String :=
  collect m (m.classes.length + 1) [name] [name]

/-- Classes that the reader of a class meets more than once; it starts by meeting its own. -/
def sharedBy (m : Module) (name : String) : List String :=
  let classes := reachable m name
  let met := name :: classes.flatMap (references m)
  classes.filter fun c => decide (2 ≤ met.count c)

/-- Whether all that a class needs is declared no later than the class itself. -/
def isReady (m : Module) (name : String) : Bool :=
  let before := (m.classes.map (·.name)).takeWhile (· != name)
  (reachable m name).all fun c => c == name || before.contains c

/-- The classes in the order in which they get their readers: first those that can have one as
soon as they are declared. -/
def order (m : Module) : List String :=
  let (ready, waiting) := (m.classes.map (·.name)).partition (isReady m)
  ready ++ waiting

def ofClass (m : Module) (name : String) : Reader :=
  { name, shared := sharedBy m name, older := (order m).takeWhile (· != name) }

def ofModule (m : Module) : List Reader := m.classes.map fun c => ofClass m c.name

end Reader

/-- How many references may be open at once. -/
def referenceLimit : Nat := 255

/-- The reader at work, and how many references are open. -/
structure Nesting where
  reader : Reader
  depth : Nat
  deriving DecidableEq, Repr, Inhabited

namespace Nesting

/-- One more reference is open if the reader at work shares the class. -/
def refer (name : String) (n : Nesting) : Nesting :=
  if n.reader.shared.contains name then { n with depth := n.depth + 1 } else n

/-- The older reader of a class takes over, if there is one. -/
def handOver (readers : List Reader) (name : String) (n : Nesting) : Nesting :=
  if n.reader.older.contains name then
    match readers.find? (·.name == name) with
    | some reader => refer name { n with reader }
    | none => n
  else n

/-- The nesting inside a class, unless it is too deep. -/
def enter? (readers : List Reader) (name : String) (n : Nesting) : Option Nesting :=
  let inner := handOver readers name (refer name n)
  if inner.depth ≤ referenceLimit then some inner else none

/-- The nesting when a class is read by its own reader, with some references open already. -/
def resume (readers : List Reader) (name : String) (depth : Nat) : Nesting :=
  refer name ⟨(readers.find? (·.name == name)).getD ⟨name, [], []⟩, depth⟩

/-- The nesting at the start of reading a class. -/
def start (readers : List Reader) (name : String) : Nesting := resume readers name 0

/-- The nesting inside a class that stands in a place of no class, unless it is too deep. -/
def resume? (readers : List Reader) (name : String) (n : Nesting) : Option Nesting :=
  let inner := resume readers name n.depth
  if inner.depth ≤ referenceLimit then some inner else none

end Nesting

end Wire
end EndpointDsl
