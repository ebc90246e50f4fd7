import EndpointDsl.Proofs.Calendar.Days
import Mathlib.Data.List.Induction
import Mathlib.Data.List.TakeWhile

/-!
Whatever a reader of dates and times takes, it gives a date that can be written.
-/

namespace EndpointDsl

open Text

/-! ## Digits -/

theorem digit_le {c : Char} (h : c.isDigit = true) : c.toNat - 48 ≤ 9 := by
  have hrange : 48 ≤ c.toNat ∧ c.toNat ≤ 57 := Char.isDigit_iff_toNat.mp h
  omega

theorem digitsValue_lt (cs : List Char) (h : ∀ c ∈ cs, c.isDigit = true) :
    digitsValue cs < 10 ^ cs.length := by
  induction cs using List.reverseRecOn with
  | nil => exact Nat.one_pos
  | append_singleton cs c ih =>
    have hcs := ih fun d hd => h d (List.mem_append_left _ hd)
    have hc := digit_le (h c (List.mem_append_right _ (List.mem_singleton_self c)))
    have hvalue : digitsValue (cs ++ [c]) = 10 * digitsValue cs + (c.toNat - 48) := by
      rw [digitsValue, List.foldl_append]
      rfl
    rw [hvalue, List.length_append, List.length_singleton, Nat.pow_succ]
    omega

theorem twoDigits?_lt {cs rest : List Char} {n : Nat} (h : twoDigits? cs = some (n, rest)) :
    n < 100 := by
  unfold twoDigits? at h
  split at h
  · next a b rest =>
    split at h
    · next hdigits =>
      obtain ⟨ha, hb⟩ := Bool.and_eq_true_iff.mp hdigits
      cases h
      refine digitsValue_lt [a, b] fun c hc => ?_
      rcases List.mem_cons.mp hc with rfl | hc
      · exact ha
      · rw [List.mem_singleton.mp hc]
        exact hb
    · cases h
  · cases h

theorem isDigit_of_mem_digitRun {cs : List Char} {c : Char} (h : c ∈ (digitRun cs).1) :
    c.isDigit = true := by
  rw [digitRun, List.span_eq_takeWhile_dropWhile] at h
  exact List.mem_takeWhile_imp h

/-! ## Dates and times of day -/

theorem spelled_of_take? {cs rest : List Char} {d : Date} (h : Date.take? cs = some (d, rest)) :
    d.Spelled := by
  simp only [Date.take?, Option.bind_eq_bind, Option.bind_eq_some_iff] at h
  obtain ⟨⟨century, cs₁⟩, hcentury, ⟨year, cs₂⟩, hyear, cs₃, -, ⟨month, cs₄⟩, -, cs₅, -,
    ⟨day, cs₆⟩, -, h⟩ := h
  have hcentury := twoDigits?_lt hcentury
  have hyear := twoDigits?_lt hyear
  split at h
  · next hvalid =>
    cases h
    exact ⟨hvalid, by show 100 * century + year < 10000; omega⟩
  · cases h

theorem fractionDigits_lt {cs : List Char} (h : ∀ c ∈ cs, c.isDigit = true) :
    fractionDigits cs < 1000000 := by
  have hvalue := digitsValue_lt (cs.take 6) fun c hc => h c (List.mem_of_mem_take hc)
  have hlength : (cs.take 6).length ≤ 6 := List.length_take_le 6 cs
  show digitsValue (cs.take 6) * 10 ^ (6 - (cs.take 6).length) < 1000000
  calc digitsValue (cs.take 6) * 10 ^ (6 - (cs.take 6).length)
      < 10 ^ (cs.take 6).length * 10 ^ (6 - (cs.take 6).length) :=
        Nat.mul_lt_mul_of_pos_right hvalue (Nat.pow_pos (by decide))
    _ = 1000000 := by rw [← Nat.pow_add, Nat.add_sub_cancel' hlength]

theorem fractionOfSecond?_lt {cs rest : List Char} {n : Nat}
    (h : fractionOfSecond? cs = some (n, rest)) : n < 1000000 := by
  unfold fractionOfSecond? at h
  simp only at h
  split at h
  · cases h
  · cases h
    exact fractionDigits_lt fun c hc => isDigit_of_mem_digitRun hc

theorem seconds?_bounds {cs rest : List Char} {second microsecond : Nat}
    (h : seconds? cs = some ((second, microsecond), rest)) :
    second ≤ 59 ∧ microsecond < 1000000 := by
  unfold seconds? at h
  split at h
  · obtain ⟨⟨n, cs⟩, -, h⟩ := Option.bind_eq_some_iff.mp h
    simp only at h
    split at h
    · cases h
    · split at h
      · split at h
        · obtain ⟨⟨f, rest⟩, hf, h⟩ := Option.map_eq_some_iff.mp h
          cases h
          exact ⟨by omega, fractionOfSecond?_lt hf⟩
        · cases h
          exact ⟨by omega, by decide⟩
      · cases h
        exact ⟨by omega, by decide⟩
  · cases h
    decide

theorem clockOffset?_lt {cs : List Char} {minutes : Int} (h : clockOffset? cs = some minutes) :
    minutes.natAbs < 1440 := by
  obtain ⟨⟨hours, cs⟩, -, h⟩ := Option.bind_eq_some_iff.mp h
  obtain ⟨⟨n, rest⟩, -, h⟩ := Option.bind_eq_some_iff.mp h
  simp only at h
  split at h
  · next hbounds =>
    cases h
    rw [Int.natAbs_natCast]
    exact hbounds.2.1
  · cases h

theorem offset?_lt {cs : List Char} {minutes : Int} (h : offset? cs = some (some minutes)) :
    minutes.natAbs < 1440 := by
  have hnegated : ∀ cs, (clockOffset? cs).map (fun m => some (-m)) = some (some minutes) →
      minutes.natAbs < 1440 := by
    intro cs h
    obtain ⟨m, hm, h⟩ := Option.map_eq_some_iff.mp h
    have := clockOffset?_lt hm
    cases h
    rwa [Int.natAbs_neg]
  unfold offset? at h
  split at h
  · cases h
  · cases h; decide
  · cases h; decide
  · obtain ⟨m, hm, h⟩ := Option.map_eq_some_iff.mp h
    cases h
    exact clockOffset?_lt hm
  · exact hnegated _ h
  · exact hnegated _ h
  · cases h

theorem spelled_of_ofText? {cs : List Char} {t : DateTime} (h : DateTime.ofText? cs = some t) :
    t.Spelled := by
  obtain ⟨⟨date, cs⟩, hdate, h⟩ := Option.bind_eq_some_iff.mp h
  simp only at h
  split at h
  · cases h
  split at h
  · cases h
  obtain ⟨⟨hour, cs⟩, -, h⟩ := Option.bind_eq_some_iff.mp h
  obtain ⟨cs, -, h⟩ := Option.bind_eq_some_iff.mp h
  obtain ⟨⟨minute, cs⟩, -, h⟩ := Option.bind_eq_some_iff.mp h
  obtain ⟨⟨⟨second, microsecond⟩, cs⟩, hseconds, h⟩ := Option.bind_eq_some_iff.mp h
  obtain ⟨offset, hoffset, h⟩ := Option.bind_eq_some_iff.mp h
  simp only at h
  split at h
  · next hclock =>
    cases h
    obtain ⟨hsecond, hmicro⟩ := seconds?_bounds hseconds
    exact ⟨spelled_of_take? hdate, hclock.1, hclock.2, hsecond, hmicro,
      fun minutes hminutes => offset?_lt (hoffset.trans (congrArg some hminutes))⟩
  · cases h

/-! ## Moments given by a number -/

theorem spelled_of_after? {seconds : Int} {microseconds : Nat} {t : DateTime}
    (h : DateTime.after? seconds microseconds = some t) : t.Spelled := by
  unfold DateTime.after? at h
  simp only at h
  split at h
  · next hbounds =>
    cases h
    simp only [firstSecond, lastSecond] at hbounds
    simp only [DateTime.ofSeconds]
    refine ⟨spelled_ofDays (by omega) (by omega), ?_, ?_, ?_, ?_, fun minutes hminutes => ?_⟩
    · show _ / 3600 ≤ 23
      omega
    · show _ / 60 % 60 ≤ 59
      omega
    · show _ % 60 ≤ 59
      omega
    · exact Nat.mod_lt _ (by decide)
    · cases hminutes
      decide
  · cases h

theorem spelled_of_ofInt? {n : Int} {t : DateTime} (h : DateTime.ofInt? n = some t) :
    t.Spelled := by
  unfold DateTime.ofInt? at h
  split at h
  · exact spelled_of_after? h
  · exact spelled_of_after? h

theorem spelled_of_ofFloat? {x : Binary64} {t : DateTime} (h : DateTime.ofFloat? x = some t) :
    t.Spelled := by
  unfold DateTime.ofFloat? at h
  split at h
  · simp only at h
    split at h
    · exact spelled_of_after? h
    · exact spelled_of_after? h
  · cases h

theorem DateTime.spelled_of_read? {cs : List Char} {t : DateTime} (h : DateTime.read? cs = some t) :
    t.Spelled := by
  unfold DateTime.read? at h
  split at h
  · next t' htext =>
    cases h
    exact spelled_of_ofText? htext
  split at h
  · exact spelled_of_ofInt? h
  · obtain ⟨x, -, hx⟩ := Option.bind_eq_some_iff.mp h
    exact spelled_of_ofFloat? hx

theorem Date.spelled_of_read? {cs : List Char} {d : Date} (h : Date.read? cs = some d) :
    d.Spelled := by
  unfold Date.read? at h
  split at h
  · next date htake =>
    cases h
    exact spelled_of_take? htake
  · obtain ⟨t, ht, h⟩ := Option.bind_eq_some_iff.mp h
    obtain ⟨n, -, hn⟩ := Option.bind_eq_some_iff.mp ht
    split at h
    · cases h
      exact (spelled_of_ofInt? hn).date
    · cases h

end EndpointDsl
