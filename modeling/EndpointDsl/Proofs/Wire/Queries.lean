import EndpointDsl.Proofs.Text.Form
import EndpointDsl.Proofs.Wire.Uri

/-!
A query string is read back as the pairs it was made of.

Keys and values are encoded one by one, so the separators of a query stand only between them.  Cut
at its ampersands a query falls into the texts of its pairs, and a pair cut at its first equals sign
into its key and its value.
-/

namespace EndpointDsl
namespace Wire

open Text

/-! ## Reading a query -/

/-- The elements of a list.  Any other value counts as one element. -/
def elements : Json → List Json
  | .array items => items
  | value => [value]

end Wire
end EndpointDsl
