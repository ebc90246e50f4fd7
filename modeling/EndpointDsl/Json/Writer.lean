import EndpointDsl.Json.Value
import EndpointDsl.Number.Shortest
import EndpointDsl.Text.Escape

/-!
Writing JSON text.

The compact form has no blanks.  The indented form puts each element and each field on a line of
its own, two blanks deeper than the container it stands in.
-/

namespace EndpointDsl
namespace Json

/-- How strings are spelled: with raw characters, or in ASCII only. -/
inductive Charset
  | raw
  | ascii
  deriving DecidableEq, Repr

def Charset.literal : Charset → String → String
  | .raw => Text.plainLiteral
  | .ascii => Text.asciiLiteral

def numberText (x : Binary64) : String := x.text "Infinity" "NaN"

mutual

def compact (charset : Charset) : Json → String
  | .null => "null"
  | .bool b => if b then "true" else "false"
  | .int n => toString n
  | .float x => numberText x
  | .string s => charset.literal s
  | .array items => "[" ++ String.intercalate "," (compactItems charset items) ++ "]"
  | .object fields => "\x7b" ++ String.intercalate "," (compactFields charset fields) ++ "\x7d"

def compactItems (charset : Charset) : List Json → List String
  | [] => []
  | v :: rest => compact charset v :: compactItems charset rest

def compactFields (charset : Charset) : List (String × Json) → List String
  | [] => []
  | (k, v) :: rest => (charset.literal k ++ ":" ++ compact charset v) :: compactFields charset rest

end

def insertByKey (key : String) (value : Json) : List (String × Json) → List (String × Json)
  | [] => [(key, value)]
  | (k, v) :: rest =>
    if key < k then (key, value) :: (k, v) :: rest else (k, v) :: insertByKey key value rest

mutual

/-- The same document with the fields of every object in ascending order of their names. -/
def sorted : Json → Json
  | .array items => .array (sortedItems items)
  | .object fields => .object (sortedFields fields)
  | v => v

def sortedItems : List Json → List Json
  | [] => []
  | v :: rest => sorted v :: sortedItems rest

def sortedFields : List (String × Json) → List (String × Json)
  | [] => []
  | (k, v) :: rest => insertByKey k (sorted v) (sortedFields rest)

end

def isFinite : Binary64 → Bool
  | .finite _ _ _ => true
  | _ => false

mutual

/-- The same document with null in the place of every number that is not finite. -/
def withFiniteNumbers : Json → Json
  | .float x => if isFinite x then .float x else .null
  | .array items => .array (finiteItems items)
  | .object fields => .object (finiteFields fields)
  | v => v

def finiteItems : List Json → List Json
  | [] => []
  | v :: rest => withFiniteNumbers v :: finiteItems rest

def finiteFields : List (String × Json) → List (String × Json)
  | [] => []
  | (k, v) :: rest => (k, withFiniteNumbers v) :: finiteFields rest

end

def indentLine (depth : Nat) : String := "\n" ++ String.ofList (List.replicate (2 * depth) ' ')

/-- Parts on lines of their own between two brackets. -/
def indentBlock (opening closing : String) (depth : Nat) (parts : List String) : String :=
  if parts.isEmpty then opening ++ closing
  else
    opening ++ indentLine (depth + 1) ++ String.intercalate ("," ++ indentLine (depth + 1)) parts ++
      indentLine depth ++ closing

mutual

def indented (depth : Nat) : Json → String
  | .array items => indentBlock "[" "]" depth (indentedItems (depth + 1) items)
  | .object fields => indentBlock "\x7b" "\x7d" depth (indentedFields (depth + 1) fields)
  | v => compact .raw v

def indentedItems (depth : Nat) : List Json → List String
  | [] => []
  | v :: rest => indented depth v :: indentedItems depth rest

def indentedFields (depth : Nat) : List (String × Json) → List String
  | [] => []
  | (k, v) :: rest => (Text.plainLiteral k ++ ": " ++ indented depth v) :: indentedFields depth rest

end

end Json
end EndpointDsl
