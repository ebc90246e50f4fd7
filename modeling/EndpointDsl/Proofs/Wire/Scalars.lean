import EndpointDsl.Proofs.Calendar.Readers
import EndpointDsl.Wire.Decode
import EndpointDsl.Wire.Encode

/-!
Scalars: what a check lets through is a scalar of its type, and every scalar of a type is read back
from the document it is written as.
-/

namespace EndpointDsl

theorem Text.utf8_of_ofUtf8? {bytes : List UInt8} {s : String} (h : ofUtf8? bytes = some s) :
    utf8 s = bytes := by
  have htext : s.toByteArray = bytes.toByteArray := by
    unfold ofUtf8? String.fromUTF8? at h
    split at h
    · cases h
      rfl
    · cases h
  apply List.toByteArray_inj.mp
  rw [← htext, ← String.utf8Encode_toList]
  rfl

/-- A date of the years that have one: it can be written, and its year is not zero. -/
structure Date.Proper (d : Date) : Prop where
  spelled : d.Spelled
  year : d.year ≠ 0

structure DateTime.Proper (t : DateTime) : Prop where
  spelled : t.Spelled
  year : t.date.year ≠ 0

namespace Wire

/-- A value that is no impossible date.  Nothing is asked of what it holds. -/
def Value.Proper : Value → Prop
  | .dateTime t => t.Proper
  | .date d => d.Proper
  | _ => True

end Wire

/-- The values of a scalar type. -/
inductive Schema.Scalar.Holds : Schema.Scalar → Wire.Value → Prop
  | text (s : String) : Holds .text (.text s)
  | bool (b : Bool) : Holds .bool (.bool b)
  | int (n : Int) : Holds .int (.int n)
  | natural {n : Int} (h : 0 ≤ n) : Holds .natural (.int n)
  | float (x : Binary64) : Holds .float (.float x)
  | bytes (b : List UInt8) : Holds .bytes (.bytes b)
  | dateTime {t : DateTime} (h : t.Proper) : Holds .dateTime (.dateTime t)
  | date {d : Date} (h : d.Proper) : Holds .date (.date d)

namespace Wire

open Schema (Scalar)

variable {origin : Origin} {v w : Value}

/-! ## What a check lets through -/

theorem spelled_midnight {d : Date} (h : d.Spelled) : (midnight d).Spelled :=
  ⟨h, Nat.zero_le 23, Nat.zero_le 59, Nat.zero_le 59, Nat.succ_pos _, fun _ h => nomatch h⟩

theorem spelled_of_momentOf? {t : DateTime} (h : momentOf? origin v = some (some t)) :
    t.Spelled := by
  unfold momentOf? at h
  split at h
  · next n =>
    split at h
    · cases h
    · exact spelled_of_ofInt? (Option.some.inj h)
  · exact spelled_of_ofFloat? (Option.some.inj h)
  · cases h

theorem inYears_eq_ok {α : Type} {onZero : Fault} {year : α → Nat} {a b : α}
    (h : inYears onZero year a = .ok b) : a = b ∧ year b ≠ 0 := by
  unfold inYears at h
  split at h
  · cases h
  · next hyear =>
    cases h
    exact ⟨rfl, hyear⟩

theorem proper_of_checkDateTime {t : DateTime} (hv : v.Proper)
    (h : checkDateTime origin v = .ok t) :
    t.Proper := by
  obtain ⟨t', ht', h⟩ := bind_eq_ok_iff.mp h
  obtain ⟨rfl, hyear⟩ := inYears_eq_ok h
  refine ⟨?_, hyear⟩
  unfold dateTimeOf at ht'
  split at ht'
  · split at ht'
    · next htext => cases ht'; exact DateTime.spelled_of_read? htext
    · next hdate => cases ht'; exact spelled_midnight (Date.spelled_of_read? hdate)
    · cases ht'
  · cases ht'; exact hv.spelled
  · cases ht'; exact spelled_midnight hv.spelled
  · cases ht'; exact spelled_of_momentOf? (by assumption)
  · cases ht'
  · cases ht'

theorem spelled_of_dateAt {t : DateTime} {d : Date} (ht : t.Spelled) (h : dateAt t = .ok d) :
    d.Spelled := by
  unfold dateAt at h
  split at h
  · cases h; exact ht.date
  · cases h

theorem proper_of_checkDate {d : Date} (hv : v.Proper) (h : checkDate origin v = .ok d) :
    d.Proper := by
  obtain ⟨d', hd', h⟩ := bind_eq_ok_iff.mp h
  obtain ⟨rfl, hyear⟩ := inYears_eq_ok h
  refine ⟨?_, hyear⟩
  unfold dateOf at hd'
  split at hd'
  · split at hd'
    · next hdate => cases hd'; exact Date.spelled_of_read? hdate
    · next htext => exact spelled_of_dateAt (DateTime.spelled_of_read? htext) hd'
    · cases hd'
  · cases hd'; exact hv.spelled
  · exact spelled_of_dateAt hv.spelled hd'
  · exact spelled_of_dateAt (spelled_of_momentOf? (by assumption)) hd'
  · cases hd'
  · cases hd'

theorem nonneg_of_checkNatural {n : Int} (h : checkNatural v = .ok n) : 0 ≤ n := by
  obtain ⟨n', -, h⟩ := bind_eq_ok_iff.mp h
  split at h
  · cases h
  · next hneg =>
    cases h
    exact Int.not_lt.mp hneg

theorem holds_of_check {kind : Scalar} (hv : v.Proper) (h : kind.check origin v = .ok w) :
    kind.Holds w := by
  cases kind with
  | text => obtain ⟨s, -, rfl⟩ := map_eq_ok_iff.mp h; exact .text s
  | bool => obtain ⟨b, -, rfl⟩ := map_eq_ok_iff.mp h; exact .bool b
  | int => obtain ⟨n, -, rfl⟩ := map_eq_ok_iff.mp h; exact .int n
  | natural => obtain ⟨n, hn, rfl⟩ := map_eq_ok_iff.mp h; exact .natural (nonneg_of_checkNatural hn)
  | float => obtain ⟨x, -, rfl⟩ := map_eq_ok_iff.mp h; exact .float x
  | bytes => obtain ⟨b, -, rfl⟩ := map_eq_ok_iff.mp h; exact .bytes b
  | dateTime =>
    obtain ⟨t, ht, rfl⟩ := map_eq_ok_iff.mp h
    exact .dateTime (proper_of_checkDateTime hv ht)
  | date =>
    obtain ⟨d, hd, rfl⟩ := map_eq_ok_iff.mp h
    exact .date (proper_of_checkDate hv hd)

theorem Scalar.Holds.proper {kind : Scalar} (h : kind.Holds v) : v.Proper := by
  cases h with
  | dateTime h => exact h
  | date h => exact h
  | _ => trivial

/-! ## Reading back what is written -/

theorem checkDateTime_wireText {t : DateTime} (h : t.Proper) :
    checkDateTime origin (.text t.wireText) = .ok t := by
  have hread : dateTimeOf origin (.text t.wireText) = .ok t := by
    simp only [dateTimeOf, dateText?, DateTime.read?_wireText h.spelled]
  rw [checkDateTime, hread]
  exact if_neg h.year

theorem checkDate_text {d : Date} (h : d.Proper) : checkDate origin (.text d.text) = .ok d := by
  have hread : dateOf origin (.text d.text) = .ok d := by
    simp only [dateOf, dateText?, Date.read?_text h.spelled]
  rw [checkDate, hread]
  exact if_neg h.year

theorem checkNatural_int {n : Int} (h : 0 ≤ n) : checkNatural (.int n) = .ok n := by
  show (if n < 0 then Except.error Fault.negative else Except.ok n) = _
  rw [if_neg (Int.not_lt.mpr h)]

theorem encodeBytes_eq_ok {b : List UInt8} {j : Json} (h : encodeBytes b = .ok j) :
    ∃ s, j = .string s ∧ Text.utf8 s = b := by
  unfold encodeBytes Text.ofUtf8 at h
  cases hs : Text.ofUtf8? b with
  | none => rw [hs] at h; cases h
  | some s =>
    rw [hs] at h
    cases h
    exact ⟨s, rfl, Text.utf8_of_ofUtf8? hs⟩

theorem misfit?_ofType_scalar (m : Client.Module) (kind : Scalar) (v : Value) :
    (Shape.ofType m (.scalar kind)).misfit? v = none := by
  cases kind <;> rfl

/-- A scalar comes back from its document. -/
theorem check_of_encodeIn {kind : Scalar} {writing : Writing} {n : Nesting} {m : Client.Module}
    {j : Json}
    (hv : kind.Holds v) (h : encodeIn writing n (Shape.ofType m (.scalar kind)) v = .ok j) :
    kind.check origin (.ofJson j) = .ok v := by
  cases hv with
  | text s => cases h; rfl
  | bool b => cases h; rfl
  | int n => cases h; rfl
  | natural hn => cases h; exact map_eq_ok_iff.mpr ⟨_, checkNatural_int hn, rfl⟩
  | float x => cases h; rfl
  | bytes b =>
    obtain ⟨s, rfl, hs⟩ := encodeBytes_eq_ok h
    exact congrArg (fun b => Except.ok (Value.bytes b)) hs
  | @dateTime t ht =>
    rw [encodeIn, misfit?_ofType_scalar] at h
    have hj : j = .string t.wireText := (Except.ok.inj h).symm
    rw [hj, Value.ofJson, Scalar.check, checkDateTime_wireText ht]
    rfl
  | @date d hd =>
    rw [encodeIn, misfit?_ofType_scalar] at h
    have hj : j = .string d.text := (Except.ok.inj h).symm
    rw [hj, Value.ofJson, Scalar.check, checkDate_text hd]
    rfl

end Wire
end EndpointDsl
