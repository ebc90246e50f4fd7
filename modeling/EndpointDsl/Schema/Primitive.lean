/-!
The scalar types of the language and what values they hold.
-/

namespace EndpointDsl
namespace Schema

/-- The values that a scalar type stands for. -/
inductive Scalar
  | text
  | bool
  | int
  | natural
  | float
  | bytes
  | dateTime
  | date
  deriving DecidableEq, Repr, Inhabited

def scalars : List (String × Scalar) :=
  [("String", .text), ("str", .text), ("bool", .bool),
   ("i8", .int), ("i16", .int), ("i32", .int), ("i64", .int), ("i128", .int), ("isize", .int),
   ("u8", .natural), ("u16", .natural), ("u32", .natural), ("u64", .natural), ("u128", .natural),
   ("usize", .natural), ("f32", .float), ("f64", .float), ("Bytes", .bytes),
   ("DateTime", .dateTime), ("Date", .date)]

def Scalar.ofName? (name : String) : Option Scalar :=
  (scalars.find? (·.1 == name)).map (·.2)

def isPrimitive (name : String) : Bool := (Scalar.ofName? name).isSome

/-- The one generic type. -/
def collectionName : String := "Vec"

end Schema
end EndpointDsl
