import EndpointDsl.Text.Percent
import EndpointDsl.Text.Quoted
import EndpointDsl.Text.Utf8
import Mathlib.Tactic.SplitIfs

/-!
Percent-encoding loses nothing.

Every octet becomes an unreserved character or a percent sign and two digits, and the first of these
characters says which.  So octets can be read off their encoding one by one, and texts with the same
encoding are the same.
-/

namespace EndpointDsl
namespace Text

/-! ## Octets of a text -/

theorem toByteArray_utf8 (s : String) : (utf8 s).toByteArray = s.toByteArray := by
  rw [← String.utf8Encode_toList]
  rfl

theorem utf8_injective {s t : String} (h : utf8 s = utf8 t) : s = t := by
  rw [← String.toByteArray_inj, ← toByteArray_utf8, ← toByteArray_utf8, h]

theorem ofUtf8?_utf8 (s : String) : ofUtf8? (utf8 s) = some s := by
  rw [ofUtf8?, toByteArray_utf8, String.fromUTF8?, dif_pos s.isValidUTF8]
  rfl

/-- A list that puts something in place of every item does not get shorter. -/
theorem length_le_length_flatMap {α β : Type} {f : α → List β} (hf : ∀ a, 0 < (f a).length)
    (xs : List α) : xs.length ≤ (xs.flatMap f).length := by
  induction xs with
  | nil => exact Nat.le_refl 0
  | cons x xs ih =>
    have hx := hf x
    rw [List.flatMap_cons, List.length_append, List.length_cons]
    omega

theorem length_le_length_utf8 (s : String) : s.toList.length ≤ (utf8 s).length :=
  length_le_length_flatMap (fun c => by rw [String.length_utf8EncodeChar]; exact c.utf8Size_pos) _

/-! ## Octets of an encoding -/

theorem upperHexDigit_inj : ∀ m < 16, ∀ n < 16, upperHexDigit m = upperHexDigit n → m = n := by
  decide

theorem upperHex_two_inj {m n : Nat} (hm : m < 256) (hn : n < 256)
    (h : upperHex 2 m = upperHex 2 n) : m = n := by
  have hdigits : [upperHexDigit (m / 16 % 16), upperHexDigit (m % 16)] =
      [upperHexDigit (n / 16 % 16), upperHexDigit (n % 16)] := h
  simp only [List.cons.injEq, and_true] at hdigits
  have hhigh := upperHexDigit_inj _ (by omega) _ (by omega) hdigits.1
  have hlow := upperHexDigit_inj _ (by omega) _ (by omega) hdigits.2
  omega

theorem toNat_octetChar (b : UInt8) : (Char.ofNat b.toNat).toNat = b.toNat := by
  have hb := b.toNat_lt
  have hvalid : b.toNat.isValidChar := Or.inl (by omega)
  rw [Char.ofNat, dif_pos hvalid]
  rfl

theorem octetChar_inj {b b' : UInt8} (h : Char.ofNat b.toNat = Char.ofNat b'.toNat) : b = b' := by
  have hnat := congrArg Char.toNat h
  rw [toNat_octetChar, toNat_octetChar] at hnat
  exact UInt8.toNat_inj.mp hnat

theorem octetChar_ne_percent {b : UInt8} (h : isUnreserved b = true) :
    Char.ofNat b.toNat ≠ '%' := by
  intro heq
  rw [isUnreserved, heq] at h
  revert h
  decide

/-- The first octet of an encoding can be read off. -/
theorem percentOctet_append_inj {b b' : UInt8} {rest rest' : List Char}
    (h : percentOctet b ++ rest = percentOctet b' ++ rest') : b = b' ∧ rest = rest' := by
  unfold percentOctet at h
  split at h <;> split at h
  · obtain ⟨hchar, hrest⟩ := List.cons.inj h
    exact ⟨octetChar_inj hchar, hrest⟩
  · next hplain _ => exact absurd (List.cons.inj h).1 (octetChar_ne_percent hplain)
  · next _ hplain => exact absurd (List.cons.inj h).1.symm (octetChar_ne_percent hplain)
  · have hlength : (upperHex 2 b.toNat).length = (upperHex 2 b'.toNat).length := by
      rw [upperHex, upperHex, length_hexDigits, length_hexDigits]
    obtain ⟨hdigits, hrest⟩ := List.append_inj (List.cons.inj h).2 hlength
    exact ⟨UInt8.toNat_inj.mp (upperHex_two_inj b.toNat_lt b'.toNat_lt hdigits), hrest⟩

theorem percentOctet_ne_nil (b : UInt8) : percentOctet b ≠ [] := by
  unfold percentOctet
  split <;> exact List.cons_ne_nil _ _

theorem flatMap_percentOctet_inj {bs bs' : List UInt8}
    (h : bs.flatMap percentOctet = bs'.flatMap percentOctet) : bs = bs' := by
  induction bs generalizing bs' with
  | nil =>
    cases bs' with
    | nil => rfl
    | cons b' bs' => exact absurd (List.append_eq_nil_iff.mp h.symm).1 (percentOctet_ne_nil b')
  | cons b bs ih =>
    cases bs' with
    | nil => exact absurd (List.append_eq_nil_iff.mp h).1 (percentOctet_ne_nil b)
    | cons b' bs' =>
      obtain ⟨rfl, hrest⟩ := percentOctet_append_inj h
      rw [ih hrest]

/-- Texts with the same percent-encoding are the same. -/
theorem percentEncoded_inj {s t : String} : percentEncoded s = percentEncoded t ↔ s = t := by
  refine ⟨fun h => utf8_injective (flatMap_percentOctet_inj ?_), fun h => h ▸ rfl⟩
  have hchars := congrArg String.toList h
  rwa [percentEncoded, percentEncoded, String.toList_ofList, String.toList_ofList] at hchars

/-! ## Octets shown -/

theorem quotedByte_ne_nil (quote : Char) (b : UInt8) : quotedByte quote b ≠ [] := by
  simp only [quotedByte, hexEscape]
  split_ifs <;> exact List.cons_ne_nil _ _

/-- Octets are never shown as the text they encode: the quotes make the text too long. -/
theorem quotedBytes_utf8_ne (s : String) : quotedBytes (utf8 s) ≠ s := by
  intro h
  have hlength := congrArg (fun t => t.toList.length) h
  have hshown : ∀ quote, (utf8 s).length ≤ ((utf8 s).flatMap (quotedByte quote)).length :=
    fun quote => length_le_length_flatMap
      (fun b => List.length_pos_iff.mpr (quotedByte_ne_nil quote b)) _
  have hoctets := length_le_length_utf8 s
  simp only [quotedBytes, String.toList_ofList, List.length_cons, List.length_append] at hlength
  have hquoted := hshown (quoteFor ((utf8 s).map fun b => Char.ofNat b.toNat))
  omega

end Text
end EndpointDsl
