import EndpointDsl.Number.Binary64

/-!
JSON documents, with whole numbers apart from numbers that have a fraction or an exponent, and
with the fields of an object in the order in which they came.
-/

namespace EndpointDsl

inductive Json
  | null
  | bool (value : Bool)
  | int (value : Int)
  | float (value : Binary64)
  | string (value : String)
  | array (items : List Json)
  | object (fields : List (String × Json))
  deriving Repr, Inhabited

/-- The first value under a key. -/
def lookup? {α : Type} (key : String) : List (String × α) → Option α
  | [] => none
  | (k, v) :: rest => if k = key then some v else lookup? key rest

/-- Replaces the value under a key, or adds the key at the end. -/
def put {α : Type} (key : String) (value : α) : List (String × α) → List (String × α)
  | [] => [(key, value)]
  | (k, v) :: rest => if k = key then (k, value) :: rest else (k, v) :: put key value rest

@[simp] theorem lookup?_put_self {α : Type} (key : String) (value : α) (fields : List (String × α)) :
    lookup? key (put key value fields) = some value := by
  induction fields with
  | nil => simp [put, lookup?]
  | cons f rest ih =>
    obtain ⟨k, v⟩ := f
    by_cases h : k = key <;> simp [put, lookup?, h, ih]

theorem lookup?_put_of_ne {α : Type} {key other : String} (h : other ≠ key) (value : α)
    (fields : List (String × α)) : lookup? other (put key value fields) = lookup? other fields := by
  induction fields with
  | nil => simp [put, lookup?, Ne.symm h]
  | cons f rest ih =>
    obtain ⟨k, v⟩ := f
    by_cases hk : k = key
    · subst hk; simp [put, lookup?, Ne.symm h]
    · by_cases ho : k = other
      · subst ho; simp [put, lookup?, hk]
      · simp [put, lookup?, hk, ho, ih]

/-- Keeps each key once, in the place of its first entry and with the value of its last. -/
def lastWins {α : Type} (fields : List (String × α)) : List (String × α) :=
  fields.foldl (fun acc f => put f.1 f.2 acc) []

namespace Json

def field? (key : String) : Json → Option Json
  | .object fields => lookup? key fields
  | _ => none

end Json
end EndpointDsl
