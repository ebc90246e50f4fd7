/-!
Runs of decimal digits.
-/

namespace EndpointDsl
namespace Text

/-- The number that a run of digits spells. -/
def digitsValue (cs : List Char) : Nat := cs.foldl (fun n c => 10 * n + (c.toNat - 48)) 0

/-- A run of digits, and the rest. -/
def digitRun (cs : List Char) : List Char × List Char := cs.span Char.isDigit

/-- A sign and what follows it.  A number without a sign is positive. -/
def sign : List Char → Bool × List Char
  | '-' :: rest => (true, rest)
  | '+' :: rest => (false, rest)
  | cs => (false, cs)

def signed (negative : Bool) (n : Nat) : Int := if negative then -n else n

/-- The number in at least `width` digits. -/
def zeroPadded (width n : Nat) : String :=
  let digits := toString n
  String.ofList (List.replicate (width - digits.length) '0') ++ digits

end Text
end EndpointDsl
