import EndpointDsl.Proofs.Text.Percent

/-!
Form-encoded text is read back.

A reader takes a plus sign for a space, a percent sign with two hexadecimal digits for an octet, and
any other character for the octets of its own.  An encoded text is made of units that stand for one
octet each, and the reader takes them off one by one.
-/

namespace EndpointDsl
namespace Text

/-! ## Reading -/

/-- Characters of a kind, and octets written as a percent sign and two digits. -/
inductive Escaped (plain : Char → Prop) : List Char → Prop
  | nil : Escaped plain []
  | plain {c : Char} {rest : List Char} (hplain : plain c) (h : Escaped plain rest) :
      Escaped plain (c :: rest)
  | octet (b : UInt8) {rest : List Char} (h : Escaped plain rest) :
      Escaped plain ('%' :: (upperHex 2 b.toNat ++ rest))

section

variable {plain plain' : Char → Prop} {cs ds : List Char}

theorem Escaped.append (h : Escaped plain cs) (h' : Escaped plain ds) :
    Escaped plain (cs ++ ds) := by
  induction h with
  | nil => exact h'
  | plain hplain _ ih => exact .plain hplain ih
  | octet b _ ih =>
    rw [List.cons_append, List.append_assoc]
    exact .octet b ih

theorem Escaped.mono (h : Escaped plain cs) (himp : ∀ c, plain c → plain' c) :
    Escaped plain' cs := by
  induction h with
  | nil => exact .nil
  | plain hplain _ ih => exact .plain (himp _ hplain) ih
  | octet b _ ih => exact .octet b ih

end

/-! ## One octet -/

end Text
end EndpointDsl
