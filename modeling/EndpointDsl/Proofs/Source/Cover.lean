import EndpointDsl.Proofs.Source.Places

/-!
What the tokens of a text say about the text.

Up to the place that a scan comes to, the text is nothing but tokens, blanks and comments.  Each
token is spelled at its offset, is as long as it can be and ends before the next one starts, and the
line and the column of a place are those of its offset.  A scan comes to the end of the text, or to
characters that start neither a token nor anything between tokens; these tell the error.
-/

namespace EndpointDsl
namespace Lexer

open Location

/-- The text up to the place where the list stops falls into the tokens of the list and what stands
between them. -/
structure Covered (text unit : String) (list : TokenList) : Prop where
  covers : Covers (.start unit) text.toList list.tokens list.stop
    (text.toList.drop list.stop.offset)
  increasing : list.places.Pairwise (·.offset < ·.offset)
  inText : ∀ l ∈ list.places, l.InText text unit
  spelled : ∀ before t after, list.tokens = before ++ t :: after →
    ∃ written more, text.toList.drop t.location.offset = written ++ more ∧
      Run (some t.lexeme) written more ∧
      ∀ l ∈ after.map (·.location) ++ [list.stop], t.location.offset + written.length ≤ l.offset

section

variable {text unit : String} {list : TokenList} {tokens : List Token} {stop : Location}
  {rest : List Char}

theorem drop_offset_after {front : List Char} (h : text.toList = front ++ rest) :
    text.toList.drop ((start unit).after front).offset = rest := by
  have hoffset : ((start unit).after front).offset = front.length := by simp [start]
  rw [hoffset, h, List.drop_left]

theorem Covers.drop_stop (h : Covers (start unit) text.toList tokens stop rest) :
    text.toList.drop stop.offset = rest := by
  obtain ⟨front, htext, hstop⟩ := h.exists_front
  rw [hstop, drop_offset_after htext]

theorem Covers.covered (h : Covers (start unit) text.toList tokens stop rest) :
    Covered text unit ⟨tokens, stop⟩ where
  covers := h.drop_stop.symm ▸ h
  increasing := h.increasing
  inText _ hl := (h.reached hl).inText
  spelled before t after htokens := by
    obtain ⟨front, written, more, htext, hplace, -, hrun, hmore⟩ := h.at_token htokens
    refine ⟨written, more, by rw [hplace, drop_offset_after htext], hrun, fun l hl => ?_⟩
    have hle := (hmore.reached hl).offset_le
    rwa [offset_after] at hle

theorem Covered.stop_le (h : Covered text unit list) : list.stop.offset ≤ text.length :=
  (h.inText list.stop (List.mem_append_right _ (List.mem_singleton_self _))).offset_le

theorem Stops.offset_lt {here : Location} {cs : List Char} {e : SyntaxError}
    (h : Stops here cs e) : e.location.offset < here.offset + cs.length := by
  cases h with
  | character => simp
  | unterminated => simp
  | escape =>
    simp only [offset_after, List.length_cons, List.length_append]
    omega

end

/-- A scan comes to the end of a text exactly if the text is covered by the tokens, and fails
exactly if the text is covered up to characters that start no run.  The error is then inside the
text: at those characters, or in the literal that they open, at a backslash that starts no escape. -/
theorem tokenize_iff_covered (text unit : String) :
    (∀ list, tokenize text unit = .ok list ↔
      Covered text unit list ∧ list.stop.offset = text.length) ∧
    ∀ e, tokenize text unit = .error e ↔
      ∃ list, Covered text unit list ∧ Stops list.stop (text.toList.drop list.stop.offset) e ∧
        e.location.offset < text.length ∧ e.location.InText text unit := by
  constructor
  · intro list
    rw [tokenize_eq_ok_iff]
    constructor
    · intro h
      have hle := List.drop_eq_nil_iff.mp h.drop_stop
      rw [String.length_toList] at hle
      exact ⟨h.covered, Nat.le_antisymm h.covered.stop_le hle⟩
    · rintro ⟨h, hstop⟩
      have hcovers := h.covers
      rwa [hstop, ← String.length_toList, List.drop_length] at hcovers
  · intro e
    constructor
    · intro h
      obtain ⟨tokens, stop, rest, hcovers, hstops⟩ := tokenize_eq_error_iff.mp h
      have hcovered : Covered text unit ⟨tokens, stop⟩ := hcovers.covered
      have hdrop := hcovers.drop_stop
      refine ⟨⟨tokens, stop⟩, hcovered, hdrop.symm ▸ hstops, ?_, inText_of_tokenize_error h⟩
      have hle : stop.offset ≤ text.length := hcovered.stop_le
      have hlt := hstops.offset_lt
      rw [← hdrop, List.length_drop, String.length_toList] at hlt
      omega
    · rintro ⟨list, h, hstops, -, -⟩
      exact tokenize_eq_error_iff.mpr ⟨_, _, _, h.covers, hstops⟩

/-- The second line is covered up to the quote, and the error is at the backslash behind it. -/
example : (tokenize "A // \"\n= \"b\\c\"" "").map (·.tokens) =
    .error ⟨.invalidEscape, ⟨"", 2, 5, 11⟩⟩ := by cbv

end Lexer
end EndpointDsl
