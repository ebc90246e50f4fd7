import EndpointDsl.Proofs.Calendar.Text

/-!
The date of a day exists, for every day of the years that four digits can write.

A cycle of four hundred years that begin in March has four centuries, a century has twenty-five
groups of four years, and a group has four years.  The last of each of these is longer or shorter
by a day than the others, so the parts of a day in the cycle are taken apart first, and the formula
for the year is checked on the parts.
-/

namespace EndpointDsl

/-- A day of the cycle by century, group of four years, year and day, all counted from zero. -/
structure CycleParts (n c q k d : Nat) : Prop where
  century : c ≤ 3
  group : q ≤ 24
  year : k ≤ 3
  day : d ≤ 365
  leap : d = 365 → k = 3 ∧ (q = 24 → c = 3)
  sum : n = 36524 * c + 1461 * q + 365 * k + d

theorem exists_cycleParts {n : Nat} (h : n < 146097) : ∃ c q k d, CycleParts n c q k d := by
  obtain ⟨c, hc⟩ : ∃ c, c = min (n / 36524) 3 := ⟨_, rfl⟩
  obtain ⟨r, hr⟩ : ∃ r, r = n - 36524 * c := ⟨_, rfl⟩
  have hcentury : r < 36524 ∨ c = 3 ∧ r = 36524 := by omega
  obtain ⟨q, hq⟩ : ∃ q, q = r / 1461 := ⟨_, rfl⟩
  obtain ⟨s, hs⟩ : ∃ s, s = r - 1461 * q := ⟨_, rfl⟩
  obtain ⟨k, hk⟩ : ∃ k, k = min (s / 365) 3 := ⟨_, rfl⟩
  have hgroup : s < 1461 := by omega
  have hday : s - 365 * k ≤ 365 ∧ (s - 365 * k = 365 → k = 3 ∧ s = 1460) := by omega
  refine ⟨c, q, k, s - 365 * k, by omega, by omega, by omega, hday.1, fun hlast => ?_, by omega⟩
  obtain ⟨hthree, hs⟩ := hday.2 hlast
  exact ⟨hthree, fun hq => by omega⟩

section

variable {n c q k d : Nat}

theorem CycleParts.yearInCycle_eq (h : CycleParts n c q k d) :
    (n - n / 1460 + n / 36524 - n / 146096) / 365 = 100 * c + 4 * q + k := by
  obtain ⟨hc, hq, hk, hd, hleap, hn⟩ := h
  have hlast : n / 36524 = c + n / 146096 := by
    by_cases hend : n = 146096
    · have hthree : c = 3 := by omega
      rw [hend, hthree]
    · have hrest : 1461 * q + 365 * k + d < 36524 := by omega
      have hzero : n / 146096 = 0 := by omega
      omega
  have hquad : n / 1460 = 25 * c + q + (24 * c + q + 365 * k + d) / 1460 := by
    have hsplit : n = 1460 * (25 * c + q) + (24 * c + q + 365 * k + d) := by omega
    rw [hsplit, Nat.mul_add_div (by decide)]
  rw [hlast, hquad]
  omega

theorem CycleParts.inYear_eq (h : CycleParts n c q k d) :
    n - (365 * (100 * c + 4 * q + k) + (100 * c + 4 * q + k) / 4 - (100 * c + 4 * q + k) / 100) =
      d := by
  obtain ⟨hc, hq, hk, -, -, hn⟩ := h
  omega

/-- The year that ends with a day 366 is a leap year. -/
theorem CycleParts.isLeap (h : CycleParts n c q k d) (hlast : d = 365) (cycle : Int)
    (hcycle : 0 ≤ cycle * 400 + (100 * c + 4 * q + k : Nat) + 1) :
    Date.isLeap (cycle * 400 + (100 * c + 4 * q + k : Nat) + 1).toNat = true := by
  obtain ⟨y, hy⟩ := Int.eq_ofNat_of_zero_le hcycle
  obtain ⟨hthree, hcentury⟩ := h.leap hlast
  have hgroup := h.group
  rw [hy, Int.toNat_natCast]
  simp only [Date.isLeap, Bool.and_eq_true, Bool.or_eq_true, beq_iff_eq, bne_iff_ne]
  omega

end

/-- The month of a day of the year, January being the last but one. -/
def monthOf (inYear : Nat) : Nat :=
  if (5 * inYear + 2) / 153 < 10 then (5 * inYear + 2) / 153 + 3 else (5 * inYear + 2) / 153 - 9

/-- The day in its month of a day of the year, counted from one. -/
def dayOf (inYear : Nat) : Nat := inYear - (153 * ((5 * inYear + 2) / 153) + 2) / 5 + 1

theorem dayOf_le {inYear : Nat} (h : inYear ≤ 364) (year : Nat) :
    dayOf inYear ≤ Date.daysInMonth year (monthOf inYear) := by
  have hfebruary : 28 ≤ Date.daysInMonth year 2 := by
    simp only [Date.daysInMonth]
    split <;> omega
  unfold dayOf monthOf
  obtain ⟨m, hm⟩ : ∃ m, m = (5 * inYear + 2) / 153 := ⟨_, rfl⟩
  rw [← hm]
  have hmonth : m < 12 := by omega
  match m, hmonth with
  | 0, _ | 1, _ | 2, _ | 3, _ | 4, _ | 5, _ | 6, _ | 7, _ | 8, _ | 9, _ | 10, _ =>
    simp only [Date.daysInMonth, Nat.reduceLT, if_true, if_false, Nat.reduceAdd, Nat.reduceSub]
    omega
  | 11, _ =>
    simp only [Nat.reduceLT, if_false, Nat.reduceSub]
    omega

theorem monthOf_le_two_iff (inYear : Nat) (h : inYear ≤ 365) :
    monthOf inYear ≤ 2 ↔ 306 ≤ inYear := by
  unfold monthOf
  split <;> omega

theorem ofDays_eq (days : Int) {c q k d : Nat}
    (h : CycleParts ((days + 719468) % 146097).toNat c q k d) :
    Date.ofDays days =
      ⟨((days + 719468) / 146097 * 400 + (100 * c + 4 * q + k : Nat) +
        if monthOf d ≤ 2 then 1 else 0).toNat, monthOf d, dayOf d⟩ := by
  simp only [Date.ofDays, h.yearInCycle_eq, h.inYear_eq]
  rfl

theorem spelled_ofDays {days : Int} (hfirst : -719528 ≤ days) (hlast : days ≤ 2932896) :
    (Date.ofDays days).Spelled := by
  obtain ⟨c, q, k, d, h⟩ := exists_cycleParts (n := ((days + 719468) % 146097).toNat) (by omega)
  have hmonth := monthOf_le_two_iff d h.day
  have hcentury := h.century
  have hgroup := h.group
  have hyear := h.year
  have hsum := h.sum
  rw [ofDays_eq days h]
  constructor
  · rw [Date.isValid, Bool.and_eq_true, decide_eq_true_eq, decide_eq_true_eq]
    refine ⟨Nat.le_add_left 1 _, ?_⟩
    by_cases hday : d = 365
    · have hleap := h.isLeap hday ((days + 719468) / 146097) (by omega)
      rw [if_pos (hmonth.mpr (by omega)), hday]
      show 29 ≤ Date.daysInMonth _ 2
      rewrite [Date.daysInMonth, if_pos hleap]
      exact Nat.le_refl 29
    · exact dayOf_le (by have := h.day; omega) _
  · show Int.toNat _ < 10000
    split <;> omega

end EndpointDsl
