import EndpointDsl.Json.Reader
import EndpointDsl.Json.Writer

/-!
A string is read back from its literal.

Each character is spelled by one escape, from which the reader takes that character and no more.
So the reader takes the characters of a literal one by one, and stops at its closing quote.
-/

namespace EndpointDsl
namespace Json

open Text (shortEscape? plainEscape unitEscape plainLiteral)

/-! ## One character -/

theorem stringChar?_shortEscape {c : Char} {cs : List Char} (h : shortEscape? c = some cs)
    (more : List Char) : stringChar? (cs ++ more) = some (c, more) := by
  unfold shortEscape? at h
  split at h
  · next hc => cases h; rw [hc]; rfl
  split at h
  · next hc => cases h; rw [hc]; rfl
  split at h
  · next hc => cases h; rw [hc]; rfl
  split at h
  · next hc => cases h; rw [hc]; rfl
  split at h
  · next hc => cases h; rw [hc]; rfl
  split at h
  · next hc => cases h; rw [← Char.ofNat_toNat c, hc]; rfl
  split at h
  · next hc => cases h; rw [← Char.ofNat_toNat c, hc]; rfl
  · cases h

/-- A control character is spelled by the two last digits of its number. -/
theorem stringChar?_unitEscape {n : Nat} (h : n < 0x20) (more : List Char) :
    stringChar? (unitEscape n ++ more) = some (Char.ofNat n, more) := by
  have hdigits : Text.lowerHex 4 n =
      ['0', '0', Text.lowerHexDigit (n / 16), Text.lowerHexDigit (n % 16)] := by
    have hfirst : n / 16 / 16 / 16 % 16 = 0 := by omega
    have hsecond : n / 16 / 16 % 16 = 0 := by omega
    have hthird : n / 16 % 16 = n / 16 := by omega
    simp only [Text.lowerHex, Text.hexDigits, List.nil_append, List.cons_append, hfirst, hsecond,
      hthird]
    rfl
  have hvalue : fourHex? '0' '0' (Text.lowerHexDigit (n / 16)) (Text.lowerHexDigit (n % 16)) =
      some n := by
    decide +revert
  have hhigh : isHighHalf n = false := by
    rw [isHighHalf, decide_eq_false (by omega), Bool.false_and]
  have hlow : isLowHalf n = false := by
    rw [isLowHalf, decide_eq_false (by omega), Bool.false_and]
  show stringChar? ('\\' :: 'u' :: (Text.lowerHex 4 n ++ more)) = _
  rw [hdigits]
  show (fourHex? _ _ _ _).bind _ = _
  rw [hvalue, Option.bind_some]
  simp only [hhigh, hlow, Bool.false_eq_true, if_false]
  rfl

theorem stringChar?_plainEscape (c : Char) (more : List Char) :
    stringChar? (plainEscape c ++ more) = some (c, more) := by
  unfold plainEscape
  cases hshort : shortEscape? c with
  | some cs => exact stringChar?_shortEscape hshort more
  | none =>
    have hslash : c ≠ '\\' := by
      intro hc
      rw [hc] at hshort
      cases hshort
    show stringChar? ((if c.toNat < 0x20 then unitEscape c.toNat else [c]) ++ more) = _
    split
    · next hsmall =>
      rw [stringChar?_unitEscape hsmall, Char.ofNat_toNat]
    · next hlarge =>
      show stringChar? (c :: more) = _
      rw [stringChar?]
      · simp [hlarge, hslash]
      · exact fun _ _ _ _ _ h _ => hslash h
      · exact fun _ _ h _ => hslash h

theorem head_plainEscape (c : Char) : ∃ d rest, plainEscape c = d :: rest ∧ d ≠ '"' := by
  unfold plainEscape
  cases hshort : shortEscape? c with
  | some cs =>
    unfold shortEscape? at hshort
    repeat' split at hshort
    all_goals first
      | cases hshort; exact ⟨'\\', _, rfl, by decide⟩
      | cases hshort
  | none =>
    have hquote : c ≠ '"' := by
      intro hc
      rw [hc] at hshort
      cases hshort
    show ∃ d rest, (if c.toNat < 0x20 then unitEscape c.toNat else [c]) = d :: rest ∧ d ≠ '"'
    split
    · exact ⟨'\\', _, rfl, by decide⟩
    · exact ⟨c, [], rfl, hquote⟩

/-! ## Whole strings -/

theorem stringTail_quote (rest : List Char) :
    (stringTail ('"' :: rest)).map Reading.outcome = some ([], rest) := by
  rw [stringTail]
  rfl

theorem stringTail_step {c d : Char} {more rest : List Char} (hc : c ≠ '"')
    (h : stringChar? (c :: more) = some (d, rest)) :
    (stringTail (c :: more)).map Reading.outcome =
      ((stringTail rest).map Reading.outcome).map fun r => (d :: r.1, r.2) := by
  rw [stringTail]
  · split
    · next hnone => rw [h] at hnone; cases hnone
    · next d' rest' hsome =>
      rw [h] at hsome
      cases hsome
      cases stringTail rest with
      | none => rfl
      | some r => rfl
  · exact hc

theorem stringTail_plain (cs rest : List Char) :
    (stringTail (cs.flatMap plainEscape ++ '"' :: rest)).map Reading.outcome = some (cs, rest) := by
  induction cs with
  | nil => exact stringTail_quote rest
  | cons c cs ih =>
    obtain ⟨d, more, hescape, hd⟩ := head_plainEscape c
    have hchar := stringChar?_plainEscape c (cs.flatMap plainEscape ++ '"' :: rest)
    rw [List.flatMap_cons, List.append_assoc, hescape, List.cons_append]
    rw [hescape, List.cons_append] at hchar
    rw [stringTail_step hd hchar, ih]
    rfl

theorem value_string (limits : Limits) {cs rest s : List Char}
    (h : (stringTail cs).map Reading.outcome = some (s, rest)) :
    (value limits ('"' :: cs)).map Reading.outcome = some (.string (String.ofList s), rest) := by
  rw [value]
  cases htail : stringTail cs with
  | none => rw [htail] at h; cases h
  | some r =>
    rw [htail] at h
    cases h
    rfl

theorem readWithin?_of_value {limits : Limits} {text : String} {cs : List Char} {j : Json}
    (htext : skipSpace text.toList = cs)
    (h : (value limits cs).map Reading.outcome = some (j, [])) :
    readWithin? limits text = some j := by
  subst htext
  unfold readWithin?
  cases hread : value limits (skipSpace text.toList) with
  | none => rw [hread] at h; cases h
  | some r =>
    rw [hread] at h
    obtain ⟨hvalue, hrest⟩ := Prod.mk.inj (Option.some.inj h)
    show (if (skipSpace r.rest).isEmpty then some r.value else none) = _
    rw [hrest, hvalue]
    rfl

theorem readWithin?_compact_string (limits : Limits) (s : String) :
    readWithin? limits (compact .raw (.string s)) = some (.string s) := by
  have htext : skipSpace (compact .raw (.string s)).toList =
      '"' :: (s.toList.flatMap plainEscape ++ ['"']) := by
    show skipSpace (plainLiteral s).toList = _
    rw [plainLiteral, String.toList_ofList]
    rfl
  have hvalue := value_string limits (stringTail_plain s.toList [])
  rw [String.ofList_toList] at hvalue
  exact readWithin?_of_value htext hvalue

/-- A text that starts no string, array or object must start a keyword or number. -/
theorem readWithin?_of_keyword {limits : Limits} {text : String} {c : Char} {more : List Char}
    (htext : skipSpace text.toList = c :: more) (hc : c ≠ '"' ∧ c ≠ '[' ∧ c ≠ '\x7b')
    (h : keyword? limits (c :: more) = none) : readWithin? limits text = none := by
  have hvalue : value limits (c :: more) = none := by
    rw [value, h]
    · exact hc.1
    · exact hc.2.1
    · exact hc.2.2
  rw [← htext] at hvalue
  rw [readWithin?, hvalue]

end Json
end EndpointDsl
