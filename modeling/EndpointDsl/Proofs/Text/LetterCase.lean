import EndpointDsl.Text.LetterCase
import Mathlib.Data.List.Forall2

/-!
Names that differ in the case of ASCII letters only have one lower case.

What a sigma becomes depends on the letters around it, but only on whether they are letters that
have a case, which another case of a letter does not change.
-/

namespace EndpointDsl
namespace Text

/-- The same character, or an ASCII letter in both cases. -/
def SameLetter (a b : Char) : Prop :=
  a = b ∨ (a.isAlpha = true ∧ b.isAlpha = true ∧ a.toLower = b.toLower)

instance : DecidableRel SameLetter := fun a b =>
  inferInstanceAs (Decidable (a = b ∨ (a.isAlpha = true ∧ b.isAlpha = true ∧
    a.toLower = b.toLower)))

/-- Two texts that differ in nothing but the case of ASCII letters. -/
def SameButCase (s t : String) : Prop := List.Forall₂ SameLetter s.toList t.toList

instance : DecidableRel SameButCase := fun s t =>
  inferInstanceAs (Decidable (List.Forall₂ SameLetter s.toList t.toList))

theorem ascii_letter : ∀ n < 128, (Char.ofNat n).isAlpha = true →
    lowerChar (Char.ofNat n) = [(Char.ofNat n).toLower] ∧
      casedRanges.has (Char.ofNat n) = true ∧ (Char.ofNat n).toNat ≠ 0x3a3 := by
  decide +kernel

theorem lt_of_isAlpha {c : Char} (h : c.isAlpha = true) : c.toNat < 128 := by
  have hle : c.val.toNat ≤ 122 := by
    rcases Bool.or_eq_true_iff.mp h with hupper | hlower
    · have hZ : c.val ≤ 'Z'.val := (of_decide_eq_true hupper).2
      exact Nat.le_trans (UInt32.le_iff_toNat_le.mp hZ) (by decide)
    · have hz : c.val ≤ 'z'.val := of_decide_eq_true (Bool.and_eq_true_iff.mp hlower).2
      exact UInt32.le_iff_toNat_le.mp hz
  show c.val.toNat < 128
  omega

theorem letter_of_isAlpha {c : Char} (h : c.isAlpha = true) :
    lowerChar c = [c.toLower] ∧ casedRanges.has c = true ∧ c.toNat ≠ 0x3a3 := by
  have hletter := ascii_letter c.toNat (lt_of_isAlpha h)
  rw [Char.ofNat_toNat] at hletter
  exact hletter h

theorem meetsCased_congr {cs ds : List Char} (h : List.Forall₂ SameLetter cs ds) :
    meetsCased cs = meetsCased ds := by
  induction h with
  | nil => rfl
  | cons hletter _ ih =>
    rw [meetsCased, meetsCased, ih]
    rcases hletter with rfl | ⟨ha, hb, -⟩
    · rfl
    · rw [(letter_of_isAlpha ha).2.1, (letter_of_isAlpha hb).2.1, Bool.true_or, Bool.true_or]

theorem lowerFrom_congr {before before' cs ds : List Char}
    (hbefore : List.Forall₂ SameLetter before before') (h : List.Forall₂ SameLetter cs ds) :
    lowerFrom before cs = lowerFrom before' ds := by
  induction h generalizing before before' with
  | nil => rfl
  | cons hletter hrest ih =>
    rw [lowerFrom, lowerFrom, ih (.cons hletter hbefore), meetsCased_congr hbefore,
      meetsCased_congr hrest]
    congr 1
    rcases hletter with rfl | ⟨ha, hb, hlower⟩
    · rfl
    · obtain ⟨hlowerA, -, hsigmaA⟩ := letter_of_isAlpha ha
      obtain ⟨hlowerB, -, hsigmaB⟩ := letter_of_isAlpha hb
      rw [if_neg hsigmaA, if_neg hsigmaB, hlowerA, hlowerB, hlower]

theorem toLower_eq_of_sameButCase {s t : String} (h : SameButCase s t) : toLower s = toLower t := by
  rw [toLower, toLower, lowerFrom_congr .nil h]

end Text
end EndpointDsl
