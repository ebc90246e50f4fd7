import EndpointDsl.Name.Casing
import Mathlib

/-!
How a name falls into words.

A separator parts what stands before it from what stands after it.  What stands between separators
falls into words of three forms, and a text of such a form is a word as a whole.
-/

namespace EndpointDsl
namespace Casing

/-- A character that belongs to no word. -/
def Separates (c : Char) : Prop := isLow c = false ∧ c.isUpper = false

/-- The forms of a word in a name: no capitals, nothing but capitals, or a capital before other
characters. -/
inductive WordForm : List Char → Prop
  | low {w : List Char} : w ≠ [] → (∀ c ∈ w, isLow c = true) → WordForm w
  | capitals {w : List Char} : w ≠ [] → (∀ c ∈ w, c.isUpper = true) → WordForm w
  | capitalized {c : Char} {lows : List Char} : c.isUpper = true → lows ≠ [] →
      (∀ d ∈ lows, isLow d = true) → WordForm (c :: lows)

section

variable {c : Char} {cs w xs ys : List Char}

theorem not_isLow_of_isUpper (h : c.isUpper = true) : ¬ isLow c = true := by
  simp only [isLow, Char.isUpper, Char.isLower, Char.isDigit, Bool.or_eq_true, Bool.and_eq_true,
    decide_eq_true_eq, ge_iff_le, UInt32.le_iff_toNat_le] at h ⊢
  have hA : 'A'.val.toNat = 65 := rfl
  have ha : 'a'.val.toNat = 97 := rfl
  have hZ : 'Z'.val.toNat = 90 := rfl
  have h9 : '9'.val.toNat = 57 := rfl
  omega

theorem WordForm.ne_nil (h : WordForm w) : w ≠ [] := by
  cases h with
  | low hne => exact hne
  | capitals hne => exact hne
  | capitalized => exact List.cons_ne_nil _ _

/-! ## Words between separators -/

theorem takeWhile_append_stop {p : Char → Bool} (h : p c = false) (xs ys : List Char) :
    (xs ++ c :: ys).takeWhile p = xs.takeWhile p ∧
      (xs ++ c :: ys).dropWhile p = xs.dropWhile p ++ c :: ys := by
  induction xs with
  | nil => simp [h]
  | cons x xs ih => cases hx : p x <;> simp [hx, ih]

theorem rawWords_separator (h : Separates c) (ys : List Char) :
    rawWords (c :: ys) = rawWords ys := by
  rw [rawWords, if_neg (by rw [h.1]; decide), if_neg (by rw [h.2]; decide)]

/-- No word reaches over a separator. -/
theorem rawWords_append_separator (h : Separates c) (xs ys : List Char) :
    rawWords (xs ++ c :: ys) = rawWords xs ++ rawWords ys := by
  have hlow := takeWhile_append_stop (p := isLow) h.1
  have hupper := takeWhile_append_stop (p := Char.isUpper) h.2
  fun_induction rawWords xs with
  | case1 => exact rawWords_separator h ys
  | case2 x rest hx _ ih =>
    rw [List.cons_append, rawWords, if_pos hx, (hlow rest ys).1, (hlow rest ys).2, ih]
    rfl
  | case3 x rest hx hcapital capitals after _ _ hnone ih =>
    rw [List.cons_append, rawWords, if_neg hx, if_pos hcapital]
    simp only [(hupper rest ys).1, (hupper rest ys).2, (hlow _ ys).1]
    rw [hnone]
    exact congrArg (capitals :: ·) ih
  | case4 x rest hx hcapital capitals after _ _ low lows hlows tail hsole ih =>
    rw [List.cons_append, rawWords, if_neg hx, if_pos hcapital]
    simp only [(hupper rest ys).1, (hupper rest ys).2, (hlow _ ys).1, (hlow _ ys).2]
    rw [hlows]
    refine (if_pos hsole).trans ?_
    exact congrArg ((capitals.getLastD x :: low :: lows) :: ·) ih
  | case5 x rest hx hcapital capitals after _ _ low lows hlows tail hmany ih =>
    rw [List.cons_append, rawWords, if_neg hx, if_pos hcapital]
    simp only [(hupper rest ys).1, (hupper rest ys).2, (hlow _ ys).1, (hlow _ ys).2]
    rw [hlows]
    refine (if_neg hmany).trans ?_
    exact congrArg (capitals.dropLast :: (capitals.getLastD x :: low :: lows) :: ·) ih
  | case6 x rest hx hcapital ih => rw [List.cons_append, rawWords, if_neg hx, if_neg hcapital, ih]

/-! ## Characters of words -/

/-- A character that belongs to a word. -/
def inWord (c : Char) : Bool := isLow c || c.isUpper

theorem inWord_of_isLow (h : isLow c = true) : inWord c = true := by rw [inWord, h, Bool.true_or]

theorem inWord_of_isUpper (h : c.isUpper = true) : inWord c = true := by
  rw [inWord, h, Bool.or_true]

theorem filter_inWord {p : Char → Bool} (h : ∀ c, p c = true → inWord c = true) (xs : List Char) :
    xs.filter inWord = xs.takeWhile p ++ (xs.dropWhile p).filter inWord := by
  conv_lhs => rw [← List.takeWhile_append_dropWhile (p := p) (l := xs), List.filter_append]
  rw [List.filter_eq_self.mpr fun c hc => h c (List.mem_takeWhile_imp hc)]

theorem dropLast_append_getLastD (x : Char) (xs : List Char) :
    (x :: xs).dropLast ++ [(x :: xs).getLastD x] = x :: xs := by
  have hlast : (x :: xs).getLastD x = (x :: xs).getLast (List.cons_ne_nil x xs) := by
    rw [List.getLastD_cons, List.getLast_eq_getLastD]
  rw [hlast, List.dropLast_concat_getLast]

/-- The words hold all characters that belong to words, in order. -/
theorem flatten_rawWords (cs : List Char) : (rawWords cs).flatten = cs.filter inWord := by
  have hcapitals : ∀ {x : Char} {rest : List Char}, x.isUpper = true →
      (x :: rest).filter inWord = (x :: rest.takeWhile Char.isUpper) ++
        (rest.dropWhile Char.isUpper).filter inWord := by
    intro x rest hx
    rw [List.filter_cons_of_pos (inWord_of_isUpper hx), filter_inWord fun _ => inWord_of_isUpper]
    rfl
  have hlows := filter_inWord fun _ => inWord_of_isLow
  fun_induction rawWords cs with
  | case1 => rfl
  | case2 x rest hx _ ih =>
    rw [List.flatten_cons, ih, List.filter_cons_of_pos (inWord_of_isLow hx), hlows rest]
    rfl
  | case3 x rest hx hcapital capitals after _ _ hnone ih =>
    rw [List.flatten_cons, ih, hcapitals hcapital]
  | case4 x rest hx hcapital capitals after _ _ low lows hlow tail hsole ih =>
    have hsplit := dropLast_append_getLastD x (rest.takeWhile Char.isUpper)
    rw [List.isEmpty_iff.mp hsole, List.nil_append] at hsplit
    rw [hcapitals hcapital, hlows, ← hsplit, ← ih]
    show _ = _ ++ (after.takeWhile isLow ++ _)
    rw [hlow]
    rfl
  | case5 x rest hx hcapital capitals after _ _ low lows hlow tail hmany ih =>
    have hsplit := dropLast_append_getLastD x (rest.takeWhile Char.isUpper)
    rw [hcapitals hcapital, hlows, ← hsplit, ← ih]
    show _ = _ ++ (after.takeWhile isLow ++ _)
    rw [hlow, List.append_assoc]
    rfl
  | case6 x rest hx hcapital ih =>
    rw [ih, List.filter_cons_of_neg]
    rw [inWord, Bool.or_eq_true, not_or]
    exact ⟨hx, hcapital⟩

theorem mem_of_mem_rawWords (h : w ∈ rawWords cs) (hc : c ∈ w) : c ∈ cs ∧ inWord c = true := by
  rw [← List.mem_filter, ← flatten_rawWords]
  exact List.mem_flatten_of_mem h hc

/-! ## Forms of words -/

theorem wordForm_of_mem_rawWords (h : w ∈ rawWords cs) : WordForm w := by
  have hcapitals : ∀ {x : Char} {rest : List Char}, x.isUpper = true →
      ∀ d ∈ x :: rest.takeWhile Char.isUpper, d.isUpper = true := fun hx =>
    List.forall_mem_cons.mpr ⟨hx, fun d hd => List.mem_takeWhile_imp hd⟩
  -- The last capital of a run starts the word of the lower-case characters after it.
  have hlast : ∀ {x low : Char} {rest lows : List Char}, x.isUpper = true →
      (rest.dropWhile Char.isUpper).takeWhile isLow = low :: lows →
      WordForm ((x :: rest.takeWhile Char.isUpper).getLastD x :: low :: lows) := by
    intro x low rest lows hx hlows
    refine .capitalized ?_ (List.cons_ne_nil _ _) fun d hd => ?_
    · exact hcapitals hx _ (by rw [List.getLastD_cons]; exact List.getLastD_mem_cons)
    · exact List.mem_takeWhile_imp (hlows ▸ hd)
  fun_induction rawWords cs with
  | case1 => cases h
  | case2 x rest hx _ ih =>
    rcases List.mem_cons.mp h with rfl | h
    · exact .low (List.cons_ne_nil _ _)
        (List.forall_mem_cons.mpr ⟨hx, fun d hd => List.mem_takeWhile_imp hd⟩)
    · exact ih h
  | case3 x rest hx hcapital capitals after _ _ hnone ih =>
    rcases List.mem_cons.mp h with rfl | h
    · exact .capitals (List.cons_ne_nil _ _) (hcapitals hcapital)
    · exact ih h
  | case4 x rest hx hcapital capitals after _ _ low lows hlows tail hsole ih =>
    rcases List.mem_cons.mp h with rfl | h
    · exact hlast hcapital hlows
    · exact ih h
  | case5 x rest hx hcapital capitals after _ _ low lows hlows tail hmany ih =>
    rcases List.mem_cons.mp h with rfl | h
    · refine .capitals (fun hnil => hmany (List.isEmpty_iff.mpr hnil)) fun d hd => ?_
      exact hcapitals hcapital d (List.dropLast_subset _ hd)
    · rcases List.mem_cons.mp h with rfl | h
      · exact hlast hcapital hlows
      · exact ih h
  | case6 x rest hx hcapital ih => exact ih h

/-- The texts that are one word as a whole are those of the three forms. -/
theorem rawWords_eq_singleton_iff : rawWords w = [w] ↔ WordForm w := by
  constructor
  · intro h
    have hmem : w ∈ rawWords w := h ▸ List.mem_singleton_self w
    exact wordForm_of_mem_rawWords hmem
  · intro h
    cases h with
    | low hne hlow =>
      obtain ⟨c, rest, rfl⟩ := List.exists_cons_of_ne_nil hne
      obtain ⟨hc, hrest⟩ := List.forall_mem_cons.mp hlow
      rw [rawWords, if_pos hc, List.takeWhile_eq_self_iff.mpr hrest,
        List.dropWhile_eq_nil_iff.mpr hrest, rawWords]
    | capitals hne hupper =>
      obtain ⟨c, rest, rfl⟩ := List.exists_cons_of_ne_nil hne
      obtain ⟨hc, hrest⟩ := List.forall_mem_cons.mp hupper
      rw [rawWords, if_neg (not_isLow_of_isUpper hc), if_pos hc]
      simp only [List.takeWhile_eq_self_iff.mpr hrest, List.dropWhile_eq_nil_iff.mpr hrest,
        List.takeWhile_nil, rawWords]
    | @capitalized c lows hc hne hlow =>
      obtain ⟨d, rest, rfl⟩ := List.exists_cons_of_ne_nil hne
      have hd : ¬ d.isUpper = true := fun hd => not_isLow_of_isUpper hd (hlow d List.mem_cons_self)
      rw [rawWords, if_neg (not_isLow_of_isUpper hc), if_pos hc]
      simp only [List.takeWhile_cons_of_neg hd, List.dropWhile_cons_of_neg hd,
        List.takeWhile_eq_self_iff.mpr hlow, List.dropWhile_eq_nil_iff.mpr hlow, rawWords]
      rfl

end
end Casing
end EndpointDsl
