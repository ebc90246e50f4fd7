import EndpointDsl.Number.Binary64
import EndpointDsl.Text.Decimal

/-!
Reading doubles from their decimal texts.
-/

namespace EndpointDsl
namespace Binary64

open Text (digitRun digitsValue sign signed)

/-- What follows the digits of a number: nothing, or a power of ten. -/
def powerOfTen? : List Char → Option Int
  | [] => some 0
  | c :: rest =>
    let (negative, digits) := sign rest
    if (c = 'e' ∨ c = 'E') ∧ !digits.isEmpty ∧ digits.all Char.isDigit then
      some (signed negative (digitsValue digits))
    else none

/-- The digits after a point, if there is one, and the rest. -/
def fractionRun : List Char → List Char × List Char
  | '.' :: rest => digitRun rest
  | cs => ([], cs)

/-- The double nearest to a decimal number.  There is a digit before or after its point. -/
def read? (cs : List Char) : Option Binary64 :=
  let (negative, cs) := sign cs
  let (whole, rest) := digitRun cs
  let (part, rest) := fractionRun rest
  if whole.isEmpty && part.isEmpty then none
  else
    (powerOfTen? rest).map fun power =>
      .ofDecimal negative (digitsValue (whole ++ part)) (power - part.length)

end Binary64
end EndpointDsl
