import EndpointDsl.Calendar.Basic
import EndpointDsl.Json.Writer
import EndpointDsl.Text.Percent
import EndpointDsl.Text.Quoted
import EndpointDsl.Text.Utf8

/-!
Values that a generated module works with: what comes in from outside, and the instances of its
classes.
-/

namespace EndpointDsl
namespace Wire

inductive Value
  | null
  | bool (value : Bool)
  | int (value : Int)
  | float (value : Binary64)
  | text (value : String)
  | bytes (value : List UInt8)
  | dateTime (value : DateTime)
  | date (value : Date)
  | list (items : List Value)
  | object (fields : List (String × Value))
  /-- An instance of a structure, with its attributes in declaration order. -/
  | model (className : String) (attrs : List (String × Value))
  /-- An instance of an enum: the chosen variant by its attribute, and its payload. -/
  | choice (className attr : String) (payload : Value)
  /-- The method of a class that replaces an attribute in a copy, as the value of a field. -/
  | builder (className attr : String)
  deriving Repr, Inhabited

mutual

def Value.ofJson : Json → Value
  | .null => .null
  | .bool b => .bool b
  | .int n => .int n
  | .float x => .float x
  | .string s => .text s
  | .array items => .list (Value.ofItems items)
  | .object fields => .object (Value.ofFields fields)

def Value.ofItems : List Json → List Value
  | [] => []
  | j :: rest => Value.ofJson j :: Value.ofItems rest

def Value.ofFields : List (String × Json) → List (String × Value)
  | [] => []
  | (k, j) :: rest => (k, Value.ofJson j) :: Value.ofFields rest

end

/-- The name of what a value is; an instance has the name of its class. -/
def Value.kindName : Value → String
  | .null => "NoneType"
  | .bool _ => "bool"
  | .int _ => "int"
  | .float _ => "float"
  | .text _ => "str"
  | .bytes _ => "bytes"
  | .dateTime _ => "datetime.datetime"
  | .date _ => "datetime.date"
  | .list _ => "list"
  | .object _ => "dict"
  | .model className _ => className
  | .choice className _ _ => className
  | .builder _ _ => "function"

/-- Whether a value counts as true.  Instances and methods always do. -/
def Value.isTruthy : Value → Bool
  | .null => false
  | .bool b => b
  | .int n => n != 0
  | .float x => !x.isZero
  | .text s => !s.isEmpty
  | .bytes b => !b.isEmpty
  | .list items => !items.isEmpty
  | .object fields => !fields.isEmpty
  | _ => true

/-! ## Texts of scalars -/

/-- How many digits the text of a whole number may have. -/
def numeralLimit : Nat := 4300

/-- Whether a whole number can be written.  Its sign does not count. -/
def isWritable (n : Int) : Bool := decide ((Nat.toDigits 10 n.natAbs).length ≤ numeralLimit)

mutual

/-- Whether all whole numbers of a document can be written. -/
def isWritableJson : Json → Bool
  | .int n => isWritable n
  | .array items => areWritableItems items
  | .object fields => areWritableFields fields
  | _ => true

def areWritableItems : List Json → Bool
  | [] => true
  | j :: rest => isWritableJson j && areWritableItems rest

def areWritableFields : List (String × Json) → Bool
  | [] => true
  | (_, j) :: rest => isWritableJson j && areWritableFields rest

end

/-- The decimal text of a number that is not part of a document. -/
def floatText (x : Binary64) : String := x.text "inf" "nan"

/-- A scalar as it stands in a URI or a header, if its whole numbers were of any length. -/
def scalarText : Json → String
  | .null => "None"
  | .bool b => if b then "true" else "false"
  | .int n => toString n
  | .float x => floatText x
  | .string s => s
  | document => Json.compact .ascii document.sorted

/-- A scalar as it stands in a URI or a header; with a whole number that is too long it has no
text. -/
def scalarText? (j : Json) : Option String :=
  if isWritableJson j then some (scalarText j) else none

/-! ## Values as documents -/

mutual

/-- The document that a value is, if it is one. -/
def Value.toJson? : Value → Option Json
  | .null => some .null
  | .bool b => some (.bool b)
  | .int n => some (.int n)
  | .float x => some (.float x)
  | .text s => some (.string s)
  | .list items => (Value.toItems? items).map .array
  | .object fields => (Value.toFields? fields).map .object
  | _ => none

def Value.toItems? : List Value → Option (List Json)
  | [] => some []
  | v :: rest => do
    let j ← Value.toJson? v
    let js ← Value.toItems? rest
    return j :: js

def Value.toFields? : List (String × Value) → Option (List (String × Json))
  | [] => some []
  | (k, v) :: rest => do
    let j ← Value.toJson? v
    let js ← Value.toFields? rest
    return (k, j) :: js

end

end Wire
end EndpointDsl
