import EndpointDsl.Calendar.Reader
import EndpointDsl.Proofs.Lists
import Mathlib.Algebra.Group.Nat.Defs
import Mathlib.Data.List.TakeDrop

/-!
Dates and times that exist are read back from their texts, and readers give only such dates.
-/

namespace EndpointDsl

/-! ## Numbers in a fixed number of digits -/

namespace Text

/-- The last digits of a number, with zeros in front. -/
def padded : Nat → Nat → List Char
  | 0, _ => []
  | width + 1, n => padded width (n / 10) ++ [(n % 10).digitChar]

theorem length_padded (width n : Nat) : (padded width n).length = width := by
  induction width generalizing n with
  | zero => rfl
  | succ width ih => rw [padded, List.length_append, ih, List.length_singleton]

theorem padded_zero (width : Nat) : padded width 0 = List.replicate width '0' := by
  induction width with
  | zero => rfl
  | succ width ih => rw [padded, ih, List.replicate_succ']; rfl

theorem padded_eq (width n : Nat) (h : n < 10 ^ width) (hwidth : 0 < width) :
    padded width n =
      List.replicate (width - (Nat.toDigits 10 n).length) '0' ++ Nat.toDigits 10 n := by
  induction width generalizing n with
  | zero => omega
  | succ width ih =>
    by_cases hsmall : n < 10
    · rw [padded, Nat.toDigits_of_lt_base hsmall, Nat.div_eq_of_lt hsmall, padded_zero,
        Nat.mod_eq_of_lt hsmall]
      rfl
    · have hbase : 10 ≤ n := Nat.le_of_not_lt hsmall
      have hdiv : n / 10 < 10 ^ width := by
        rw [Nat.pow_succ] at h
        omega
      have hpos : 0 < width := by
        rcases Nat.eq_zero_or_pos width with hzero | hpos
        · rw [hzero] at h
          omega
        · exact hpos
      rw [padded, ih (n / 10) hdiv hpos, Nat.toDigits_of_base_le (by omega) hbase,
        List.length_append, List.length_singleton, List.append_assoc]
      congr 2
      omega

theorem toList_zeroPadded {width n : Nat} (h : n < 10 ^ width) (hwidth : 0 < width) :
    (zeroPadded width n).toList = padded width n := by
  have hdigits : (toString n).toList = Nat.toDigits 10 n := Nat.toList_repr
  rw [zeroPadded, String.toList_append, String.toList_ofList, hdigits, padded_eq width n h hwidth,
    ← String.length_toList, hdigits]

theorem isDigit_of_mem_padded {width n : Nat} {c : Char} (h : c ∈ padded width n) :
    c.isDigit = true := by
  induction width generalizing n with
  | zero => cases h
  | succ width ih =>
    rcases List.mem_append.mp h with hrest | hlast
    · exact ih hrest
    · rw [List.mem_singleton.mp hlast, Nat.isDigit_digitChar, decide_eq_true_eq]
      omega

theorem digitsValue_append_digit (cs : List Char) {d : Nat} (hd : d < 10) :
    digitsValue (cs ++ [d.digitChar]) = 10 * digitsValue cs + d := by
  rw [digitsValue, List.foldl_append]
  show 10 * digitsValue cs + (d.digitChar.toNat - 48) = _
  rw [Nat.toNat_digitChar_sub_48_of_lt_ten hd]

theorem digitsValue_padded {width n : Nat} (h : n < 10 ^ width) :
    digitsValue (padded width n) = n := by
  induction width generalizing n with
  | zero =>
    have hzero : n = 0 := by simpa using h
    rw [hzero]
    rfl
  | succ width ih =>
    have hdiv : n / 10 < 10 ^ width := by
      rw [Nat.pow_succ] at h
      omega
    rw [padded, digitsValue_append_digit _ (Nat.mod_lt n (by decide)), ih hdiv]
    omega

/-- A run of digits ends where no digit follows. -/
theorem digitRun_append {ds rest : List Char} (hds : ∀ c ∈ ds, c.isDigit = true)
    (hrest : ∀ c ∈ rest.head?, c.isDigit = false) : digitRun (ds ++ rest) = (ds, rest) := by
  rw [digitRun, List.span_eq_takeWhile_dropWhile, List.takeWhile_append_of_pos hds,
    List.dropWhile_append_of_pos hds]
  cases rest with
  | nil => rw [List.takeWhile_nil, List.append_nil, List.dropWhile_nil]
  | cons c cs =>
    have hc : ¬ c.isDigit = true := by
      rw [hrest c rfl]
      exact Bool.false_ne_true
    rw [List.takeWhile_cons_of_neg hc, List.append_nil, List.dropWhile_cons_of_neg hc]

end Text

open Text

theorem twoDigits?_padded {n : Nat} (h : n < 100) (rest : List Char) :
    twoDigits? (padded 2 n ++ rest) = some (n, rest) := by
  have hvalue : digitsValue (padded 2 n) = n := digitsValue_padded h
  have hfirst : (n / 10 % 10).digitChar.isDigit = true := by
    rw [Nat.isDigit_digitChar, decide_eq_true_eq]
    omega
  have hsecond : (n % 10).digitChar.isDigit = true := by
    rw [Nat.isDigit_digitChar, decide_eq_true_eq]
    omega
  show (if (n / 10 % 10).digitChar.isDigit && (n % 10).digitChar.isDigit then
    some (digitsValue (padded 2 n), rest) else none) = _
  rw [hfirst, hsecond, hvalue]
  rfl

theorem padded_four (n : Nat) : padded 4 n = padded 2 (n / 100) ++ padded 2 (n % 100) := by
  have hthird : n % 100 / 10 % 10 = n / 10 % 10 := by omega
  have hfourth : n % 100 % 10 = n % 10 := by omega
  have hsecond : n / 10 / 10 = n / 100 := by omega
  simp only [padded, List.nil_append, List.cons_append, hthird, hfourth, hsecond]

/-! ## Dates -/

/-- A date that a four-digit year, a month and a day can spell. -/
structure Date.Spelled (d : Date) : Prop where
  valid : d.isValid = true
  year : d.year < 10000

theorem daysInMonth_le (year month : Nat) : Date.daysInMonth year month ≤ 31 := by
  unfold Date.daysInMonth
  split
  · split <;> omega
  all_goals omega

theorem month_lt_of_daysInMonth_pos {year month : Nat} (h : 0 < Date.daysInMonth year month) :
    month < 13 := by
  unfold Date.daysInMonth at h
  split at h <;> omega

theorem Date.Spelled.day_lt {d : Date} (h : d.Spelled) : d.day < 100 := by
  have hvalid := h.valid
  rw [Date.isValid, Bool.and_eq_true, decide_eq_true_eq, decide_eq_true_eq] at hvalid
  have := daysInMonth_le d.year d.month
  omega

theorem Date.Spelled.month_lt {d : Date} (h : d.Spelled) : d.month < 100 := by
  have hvalid := h.valid
  rw [Date.isValid, Bool.and_eq_true, decide_eq_true_eq, decide_eq_true_eq] at hvalid
  have hdays : 0 < Date.daysInMonth d.year d.month := by omega
  have := month_lt_of_daysInMonth_pos hdays
  omega

theorem Date.toList_text {d : Date} (h : d.Spelled) :
    d.text.toList =
      padded 2 (d.year / 100) ++ padded 2 (d.year % 100) ++ '-' :: padded 2 d.month ++
        '-' :: padded 2 d.day := by
  have hyear : (zeroPadded 4 d.year).toList = padded 4 d.year :=
    toList_zeroPadded h.year (by decide)
  have hmonth : (zeroPadded 2 d.month).toList = padded 2 d.month :=
    toList_zeroPadded h.month_lt (by decide)
  have hday : (zeroPadded 2 d.day).toList = padded 2 d.day := toList_zeroPadded h.day_lt (by decide)
  show (zeroPadded 4 d.year ++ "-" ++ zeroPadded 2 d.month ++ "-" ++ zeroPadded 2 d.day).toList = _
  simp only [String.toList_append, hyear, hmonth, hday, padded_four, List.append_assoc]
  rfl

theorem char?_cons (c : Char) (rest : List Char) : char? c (c :: rest) = some rest := by
  rw [char?, if_pos rfl]

theorem Date.take?_text {d : Date} (h : d.Spelled) (rest : List Char) :
    Date.take? (d.text.toList ++ rest) = some (d, rest) := by
  have hyear := h.year
  have hdate : (⟨100 * (d.year / 100) + d.year % 100, d.month, d.day⟩ : Date) = d := by
    rw [Nat.div_add_mod]
  rw [Date.toList_text h]
  simp only [List.append_assoc, List.cons_append, Date.take?, Option.bind_eq_bind]
  rw [twoDigits?_padded (by omega), Option.bind_some, twoDigits?_padded (by omega),
    Option.bind_some, char?_cons, Option.bind_some, twoDigits?_padded h.month_lt,
    Option.bind_some, char?_cons, Option.bind_some, twoDigits?_padded h.day_lt, Option.bind_some]
  show (if Date.isValid _ then _ else _) = _
  rw [hdate, if_pos h.valid]

theorem Date.read?_text {d : Date} (h : d.Spelled) : Date.read? d.text.toList = some d := by
  have htake := Date.take?_text h []
  rw [List.append_nil] at htake
  rw [Date.read?, htake]

/-! ## Times of day -/

structure DateTime.Spelled (t : DateTime) : Prop where
  date : t.date.Spelled
  hour : t.hour ≤ 23
  minute : t.minute ≤ 59
  second : t.second ≤ 59
  microsecond : t.microsecond < 1000000
  offset : ∀ minutes, t.offset = some minutes → minutes.natAbs < 1440

/-- The characters of a fraction of a second. -/
def fractionChars (microsecond : Nat) : List Char :=
  if microsecond = 0 then [] else '.' :: padded 6 microsecond

/-- The characters of an offset in a text for transmission. -/
def offsetChars : Option Int → List Char
  | none => []
  | some minutes =>
    if minutes = 0 then ['Z']
    else (if minutes < 0 then '-' else '+') ::
      (padded 2 (minutes.natAbs / 60) ++ ':' :: padded 2 (minutes.natAbs % 60))

theorem clockOffset?_chars {n : Nat} (h : n < 1440) :
    clockOffset? (padded 2 (n / 60) ++ ':' :: padded 2 (n % 60)) = some (n : Int) := by
  have hminutes : twoDigits? (padded 2 (n % 60)) = some (n % 60, []) := by
    have := twoDigits?_padded (n := n % 60) (by omega) []
    rwa [List.append_nil] at this
  have htotal : 60 * (n / 60) + n % 60 = n := by omega
  rw [clockOffset?, Option.bind_eq_bind, twoDigits?_padded (by omega), Option.bind_some]
  show (twoDigits? (padded 2 (n % 60))).bind _ = _
  rw [hminutes, Option.bind_some]
  show (if n % 60 < 60 ∧ 60 * (n / 60) + n % 60 < 1440 ∧ _ then
    some ((60 * (n / 60) + n % 60 : Nat) : Int) else none) = _
  rw [htotal, if_pos ⟨by omega, h, rfl⟩]

theorem offset?_chars {offset : Option Int}
    (h : ∀ minutes, offset = some minutes → minutes.natAbs < 1440) :
    offset? (offsetChars offset) = some offset := by
  cases offset with
  | none => rfl
  | some minutes =>
    have hclock := clockOffset?_chars (h minutes rfl)
    by_cases hzero : minutes = 0
    · rw [hzero]
      rfl
    · rw [offsetChars, if_neg hzero]
      by_cases hneg : minutes < 0
      · rw [if_pos hneg]
        show (clockOffset? _).map (fun m => some (-m)) = _
        rw [hclock, Option.map_some]
        congr 2
        omega
      · rw [if_neg hneg]
        show (clockOffset? _).map some = _
        rw [hclock, Option.map_some]
        congr 2
        omega

/-- An offset starts with no digit, point or comma. -/
theorem head_offsetChars (offset : Option Int) (c : Char) (h : c ∈ (offsetChars offset).head?) :
    c.isDigit = false ∧ c ≠ '.' ∧ c ≠ ',' := by
  cases offset with
  | none => cases h
  | some minutes =>
    rw [offsetChars] at h
    split at h
    · cases h; decide
    · split at h
      · cases h; decide
      · cases h; decide

theorem fractionOfSecond?_chars {n : Nat} (h : n < 1000000) {rest : List Char}
    (hrest : ∀ c ∈ rest.head?, c.isDigit = false) :
    fractionOfSecond? (padded 6 n ++ rest) = some (n, rest) := by
  have hrun : digitRun (padded 6 n ++ rest) = (padded 6 n, rest) :=
    digitRun_append (fun c hc => isDigit_of_mem_padded hc) hrest
  have hvalue : fractionDigits (padded 6 n) = n := by
    have htake : (padded 6 n).take 6 = padded 6 n :=
      List.take_of_length_le (Nat.le_of_eq (length_padded 6 n))
    rw [fractionDigits, htake, length_padded, digitsValue_padded h]
    exact Nat.mul_one n
  have hnonempty : (padded 6 n).isEmpty = false := by
    rw [padded]
    simp
  rw [fractionOfSecond?, hrun]
  show (if (padded 6 n).isEmpty then none else some (fractionDigits (padded 6 n), rest)) = _
  rw [hnonempty, hvalue]
  rfl

theorem seconds?_chars {second microsecond : Nat} (hsecond : second ≤ 59)
    (hmicro : microsecond < 1000000) (offset : Option Int) :
    seconds? (':' :: (padded 2 second ++ (fractionChars microsecond ++ offsetChars offset))) =
      some ((second, microsecond), offsetChars offset) := by
  have hhead := head_offsetChars offset
  show (twoDigits? _).bind _ = _
  rw [twoDigits?_padded (by omega), Option.bind_some]
  show (if 59 < second then none else _) = _
  rw [if_neg (by omega)]
  by_cases hzero : microsecond = 0
  · rw [fractionChars, if_pos hzero, List.nil_append, hzero]
    cases hchars : offsetChars offset with
    | nil => rfl
    | cons c rest =>
      rw [hchars] at hhead
      show (if c = '.' ∨ c = ',' then _ else _) = _
      rw [if_neg fun h => h.elim (hhead c rfl).2.1 (hhead c rfl).2.2]
  · rw [fractionChars, if_neg hzero]
    show (fractionOfSecond? (padded 6 microsecond ++ offsetChars offset)).map _ = _
    rw [fractionOfSecond?_chars hmicro fun c hc => (hhead c hc).1]
    rfl

theorem toList_offsetText {minutes : Int} (h : minutes.natAbs < 1440) :
    (DateTime.offsetText minutes).toList = (if minutes < 0 then '-' else '+') ::
      (padded 2 (minutes.natAbs / 60) ++ ':' :: padded 2 (minutes.natAbs % 60)) := by
  have hhours : (zeroPadded 2 (minutes.natAbs / 60)).toList = padded 2 (minutes.natAbs / 60) :=
    toList_zeroPadded (by omega) (by decide)
  have hminutes : (zeroPadded 2 (minutes.natAbs % 60)).toList = padded 2 (minutes.natAbs % 60) :=
    toList_zeroPadded (by omega) (by decide)
  simp only [DateTime.offsetText, String.toList_append, hhours, hminutes]
  split <;> rfl

theorem toList_localText {t : DateTime} (h : t.Spelled) :
    (t.localText "T").toList = t.date.text.toList ++ 'T' :: (padded 2 t.hour ++ ':' ::
      (padded 2 t.minute ++ ':' :: (padded 2 t.second ++ fractionChars t.microsecond))) := by
  have hhour : (zeroPadded 2 t.hour).toList = padded 2 t.hour :=
    toList_zeroPadded (by have := h.hour; omega) (by decide)
  have hminute : (zeroPadded 2 t.minute).toList = padded 2 t.minute :=
    toList_zeroPadded (by have := h.minute; omega) (by decide)
  have hsecond : (zeroPadded 2 t.second).toList = padded 2 t.second :=
    toList_zeroPadded (by have := h.second; omega) (by decide)
  have hmicro : (zeroPadded 6 t.microsecond).toList = padded 6 t.microsecond :=
    toList_zeroPadded h.microsecond (by decide)
  have hfraction : (if t.microsecond = 0 then "" else "." ++ zeroPadded 6 t.microsecond).toList =
      fractionChars t.microsecond := by
    unfold fractionChars
    split
    · rfl
    · rw [String.toList_append, hmicro]
      rfl
  show (t.date.text ++ "T" ++ (zeroPadded 2 t.hour ++ ":" ++ zeroPadded 2 t.minute ++ ":" ++
    zeroPadded 2 t.second) ++ _).toList = _
  simp only [String.toList_append, hhour, hminute, hsecond, hfraction, List.append_assoc]
  rfl

theorem DateTime.toList_wireText {t : DateTime} (h : t.Spelled) :
    t.wireText.toList = t.date.text.toList ++ 'T' :: (padded 2 t.hour ++ ':' ::
      (padded 2 t.minute ++ ':' :: (padded 2 t.second ++
        (fractionChars t.microsecond ++ offsetChars t.offset)))) := by
  have hsuffix : t.wireText.toList = (t.localText "T").toList ++ offsetChars t.offset := by
    rw [DateTime.wireText, String.toList_append]
    congr 1
    split
    · next hnone => rw [hnone]; rfl
    · next hzero => rw [hzero]; rfl
    · next minutes hne hsome =>
      rw [hsome, offsetChars, if_neg hne, toList_offsetText (h.offset _ hsome)]
  rw [hsuffix, toList_localText h]
  simp only [List.append_assoc, List.cons_append]

theorem DateTime.ofText?_wireText {t : DateTime} (h : t.Spelled) :
    DateTime.ofText? t.wireText.toList = some t := by
  have hhour := h.hour
  have hminute := h.minute
  rw [DateTime.toList_wireText h, DateTime.ofText?, Option.bind_eq_bind, Date.take?_text h.date,
    Option.bind_some]
  show (twoDigits? _).bind _ = _
  rw [twoDigits?_padded (by omega), Option.bind_some]
  show (char? ':' (':' :: _)).bind _ = _
  rw [char?_cons, Option.bind_some]
  show (twoDigits? _).bind _ = _
  rw [twoDigits?_padded (by omega), Option.bind_some]
  show (seconds? _).bind _ = _
  rw [seconds?_chars h.second h.microsecond, Option.bind_some]
  show (offset? _).bind _ = _
  rw [offset?_chars h.offset, Option.bind_some]
  show (if t.hour ≤ 23 ∧ t.minute ≤ 59 then _ else _) = _
  rw [if_pos ⟨h.hour, h.minute⟩]

theorem DateTime.read?_wireText {t : DateTime} (h : t.Spelled) :
    DateTime.read? t.wireText.toList = some t := by
  rw [DateTime.read?, DateTime.ofText?_wireText h]

end EndpointDsl
