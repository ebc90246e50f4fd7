/-!
What a rule reads off the front of a list.

A rule that succeeds takes at least one element: the rest it hands on is shorter than what it was
given.  Every repetition of rules ends for that reason, so the proof travels with the result.
-/

namespace EndpointDsl

structure Reading {σ : Type} (input : List σ) (α : Type) where
  value : α
  rest : List σ
  shorter : rest.length < input.length

/-- What an optional rule reads: possibly nothing, and then the rest is the whole input. -/
structure OptionalReading {σ : Type} (input : List σ) (α : Type) where
  value : α
  rest : List σ
  notLonger : rest.length ≤ input.length

namespace Reading

variable {σ α β : Type} {input : List σ}

/-- One element is read. -/
def one (value : α) (x : σ) (rest : List σ) : Reading (x :: rest) α :=
  { value, rest, shorter := Nat.lt_succ_self rest.length }

/-- What is read if one more element stands in front. -/
def after (x : σ) (f : α → β) (r : Reading input α) : Reading (x :: input) β :=
  { value := f r.value, rest := r.rest, shorter := Nat.lt_succ_of_lt r.shorter }

def map (f : α → β) (r : Reading input α) : Reading input β :=
  { value := f r.value, rest := r.rest, shorter := r.shorter }

/-- The same value read from a longer input that leaves the same rest. -/
def widen {longer : List σ} (r : Reading input α) (h : input.length ≤ longer.length) :
    Reading longer α :=
  { value := r.value, rest := r.rest, shorter := Nat.lt_of_lt_of_le r.shorter h }

/-- The value and the rest, without the proof. -/
def outcome (r : Reading input α) : α × List σ := (r.value, r.rest)

end Reading

theorem length_dropWhile_le {σ : Type} (p : σ → Bool) (xs : List σ) :
    (xs.dropWhile p).length ≤ xs.length := (List.dropWhile_sublist p).length_le

end EndpointDsl
