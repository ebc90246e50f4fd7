import EndpointDsl.Proofs.Source.Relocation
import EndpointDsl.Proofs.Source.Runs
import Mathlib.Data.List.DropRight

/-!
The places that the tokens of a text get.

A place is counted up from the start of the text, so its line and its column are those of its
offset.  The tokens of a text come in the order of their places.  Since what a run is depends on no
more than the first character behind it, the tokens of a part of the text are those that the part
has by itself.
-/

namespace EndpointDsl

/-! ## Lines and columns -/

namespace Location

variable {here l : Location} {cs front rest : List Char}

@[simp] theorem unit_after (here : Location) (cs : List Char) :
    (here.after cs).unit = here.unit := by
  induction cs generalizing here with
  | nil => rfl
  | cons c cs ih => rw [after_cons, ih, unit_next]

theorem line_after (here : Location) (cs : List Char) :
    (here.after cs).line = here.line + cs.count '\n' := by
  induction cs generalizing here with
  | nil => rfl
  | cons c cs ih =>
    rw [after_cons, ih, next]
    by_cases hc : c = '\n'
    · rw [if_pos hc, hc, List.count_cons_self]
      show here.line + 1 + _ = _
      omega
    · rw [if_neg hc, List.count_cons_of_ne hc]

/-- The offset of the first character of the line that an offset is on. -/
def lineStart (cs : List Char) (offset : Nat) : Nat :=
  ((cs.take offset).rdropWhile (· != '\n')).length

theorem column_after (unit : String) (cs : List Char) :
    ((start unit).after cs).column = cs.length - lineStart cs cs.length + 1 := by
  induction cs using List.reverseRecOn with
  | nil => rfl
  | append_singleton cs c ih =>
    rw [lineStart, List.take_length] at ih ⊢
    rw [after_append, after_cons, after_nil, next, List.length_append, List.length_singleton]
    by_cases hc : c = '\n'
    · subst hc
      rw [if_pos rfl, List.rdropWhile_concat_neg _ _ _ (by decide), List.length_append,
        List.length_singleton, Nat.sub_self]
    · have hle : (cs.rdropWhile (· != '\n')).length ≤ cs.length :=
        (List.rdropWhile_prefix (· != '\n') cs).length_le
      rw [if_neg hc, List.rdropWhile_concat_pos _ _ _ (by simpa using hc)]
      show ((start unit).after cs).column + 1 = _
      omega

/-- The place has the line and the column of its offset in the text. -/
structure InText (text unit : String) (l : Location) : Prop where
  unit_eq : l.unit = unit
  offset_le : l.offset ≤ text.length
  line_eq : l.line = 1 + (text.toList.take l.offset).count '\n'
  column_eq : l.column = l.offset - lineStart text.toList l.offset + 1

/-- The place is counted up from another over characters at the front. -/
def Reached (here : Location) (cs : List Char) (l : Location) : Prop :=
  ∃ front, front <+: cs ∧ l = here.after front

theorem reached_self (here : Location) (cs : List Char) : Reached here cs here :=
  ⟨[], List.nil_prefix, rfl⟩

theorem Reached.append (h : Reached (here.after front) rest l) :
    Reached here (front ++ rest) l := by
  obtain ⟨more, hmore, rfl⟩ := h
  exact ⟨front ++ more, (List.prefix_append_right_inj front).mpr hmore, (after_append _ _ _).symm⟩

theorem Reached.offset_le (h : Reached here cs l) : here.offset ≤ l.offset := by
  obtain ⟨front, -, rfl⟩ := h
  rw [offset_after]
  exact Nat.le_add_right _ _

theorem Reached.inText {text unit : String} (h : Reached (start unit) text.toList l) :
    InText text unit l := by
  obtain ⟨front, hfront, rfl⟩ := h
  have hoffset : ((start unit).after front).offset = front.length := by
    rw [offset_after]
    exact Nat.zero_add _
  have htake : text.toList.take front.length = front := (List.prefix_iff_eq_take.mp hfront).symm
  refine ⟨unit_after _ _, ?_, ?_, ?_⟩
  · rw [hoffset, ← String.length_toList]
    exact hfront.length_le
  · rw [hoffset, htake, line_after]
    rfl
  · rw [hoffset, column_after, lineStart, lineStart, htake, List.take_length]

end Location

namespace Lexer

open Location

section

variable {here there l : Location} {cs cs' front rest rest' : List Char} {lexeme? : Option Lexeme}
  {tokens before after : List Token} {t : Token} {e : SyntaxError}

/-! ## The order of the places -/

theorem Covers.reached (h : Covers here cs tokens there rest)
    (hl : l ∈ tokens.map (·.location) ++ [there]) : Reached here cs l := by
  induction h with
  | done => exact List.mem_singleton.mp hl ▸ reached_self _ _
  | @run here there lexeme? front cs rest tokens _ _ ih =>
    cases lexeme? with
    | none => exact (ih hl).append
    | some lexeme =>
      rcases List.mem_cons.mp hl with hfirst | hlater
      · exact hfirst ▸ reached_self here _
      · exact (ih hlater).append

theorem Covers.increasing (h : Covers here cs tokens there rest) :
    (tokens.map (·.location) ++ [there]).Pairwise (·.offset < ·.offset) := by
  induction h with
  | done => simp
  | @run here there lexeme? front cs rest tokens hrun h ih =>
    cases lexeme? with
    | none => exact ih
    | some lexeme =>
      -- Every later place is reached over the whole run, which is not empty.
      refine List.pairwise_cons.mpr ⟨fun l hl => ?_, ih⟩
      have hle := (h.reached hl).offset_le
      have hpos := List.length_pos_iff.mpr hrun.ne_nil
      rw [offset_after] at hle
      show here.offset < _
      omega

theorem Stops.reached (h : Stops here cs e) : Reached here cs e.location := by
  cases h with
  | character => exact reached_self here _
  | unterminated => exact reached_self here _
  | @escape value body rest => exact ⟨'"' :: body, ⟨'\\' :: rest, rfl⟩, rfl⟩

/-! ## The tokens of a part of a text -/

/-- A token among others divides the runs into those before it, its own and those after it. -/
theorem Covers.at_token (h : Covers here cs tokens there rest)
    (htokens : tokens = before ++ t :: after) :
    ∃ front written more, cs = front ++ (written ++ more) ∧ t.location = here.after front ∧
      Covers here cs before t.location (written ++ more) ∧ Run (some t.lexeme) written more ∧
      Covers (t.location.after written) more after there rest := by
  induction h generalizing before with
  | done => cases before <;> cases htokens
  | @run here there lexeme? front cs rest tokens hrun h ih =>
    have hlater : ∀ {before'}, tokens = before' ++ t :: after → ∃ front' written more,
        front ++ cs = front' ++ (written ++ more) ∧ t.location = here.after front' ∧
          Covers here (front ++ cs) (tokenAt here lexeme? ++ before') t.location
            (written ++ more) ∧ Run (some t.lexeme) written more ∧
          Covers (t.location.after written) more after there rest := by
      intro before' hbefore
      obtain ⟨front', written, more, rfl, hplace, hfront, hown, hmore⟩ := ih hbefore
      exact ⟨front ++ front', written, more, (List.append_assoc _ _ _).symm,
        by rw [hplace, after_append], .run hrun hfront, hown, hmore⟩
    cases lexeme? with
    | none => exact hlater htokens
    | some lexeme =>
      cases before with
      | nil =>
        cases htokens
        exact ⟨[], front, cs, rfl, rfl, .done, hrun, h⟩
      | cons first before =>
        obtain ⟨rfl, hrest⟩ := List.cons.inj htokens
        exact hlater hrest

theorem Run.congr (h : Run lexeme? front rest) (hhead : rest'.head? = rest.head?) :
    Run lexeme? front rest' := by
  cases h with
  | gap hgap => exact .gap hgap
  | comment hline hend => exact .comment hline (hhead ▸ hend)
  | token hspelling hend => exact .token hspelling (hhead ▸ hend)

/-- Only the first of the characters behind the runs has a say in what the runs are. -/
theorem Covers.congr (h : Covers here cs tokens there rest) (hcs : cs = front ++ rest)
    (hhead : rest'.head? = rest.head?) : Covers here (front ++ rest') tokens there rest' := by
  induction h generalizing front with
  | @done here rest =>
    obtain rfl : front = [] := List.self_eq_append_left.mp hcs
    exact .done
  | @run here there lexeme? first cs rest tokens hrun h ih =>
    obtain ⟨more, rfl, -⟩ := h.exists_front
    rw [← List.append_assoc] at hcs
    obtain rfl := List.append_cancel_right hcs
    have hnext : (more ++ rest').head? = (more ++ rest).head? := by
      rw [List.head?_append, List.head?_append, hhead]
    rw [List.append_assoc]
    exact .run (hrun.congr hnext) (ih rfl hhead)

theorem Covers.trans {middle : Location} {others : List Token}
    (h : Covers here cs tokens middle cs') (h' : Covers middle cs' others there rest) :
    Covers here cs (tokens ++ others) there rest := by
  induction h with
  | done => exact h'
  | run hrun _ ih =>
    rw [List.append_assoc]
    exact .run hrun (ih h')

/-- The characters from a token on have the tokens from it on. -/
theorem Covers.from_token (h : Covers here cs tokens there rest)
    (htokens : tokens = before ++ t :: after) :
    ∃ front more, cs = front ++ more ∧ t.location = here.after front ∧
      Covers t.location more (t :: after) there rest := by
  obtain ⟨front, written, more, hcs, hplace, -, hrun, hmore⟩ := h.at_token htokens
  exact ⟨front, written ++ more, hcs, hplace, .run hrun hmore⟩

/-- The characters up to a closing bracket have the tokens up to it. -/
theorem Covers.up_to_bracket (h : Covers here cs tokens there rest)
    (htokens : tokens = before ++ t :: after) (ht : t.lexeme = .punct .rightBracket) :
    ∃ front more, cs = front ++ ']' :: more ∧ t.location = here.after front ∧
      Covers here (front ++ [']']) (before ++ [t]) (t.location.after [']']) [] := by
  obtain ⟨front, written, more, hcs, hplace, hfront, hrun, -⟩ := h.at_token htokens
  rw [ht] at hrun
  obtain rfl : written = [']'] := by
    cases hrun with
    | token hspelling =>
      cases hspelling
      rfl
  have hlast : Run (some t.lexeme) [']'] [] := ht ▸ .token (.punct .rightBracket) nofun
  have hup : Covers here (front ++ [']']) before t.location [']'] := hfront.congr hcs rfl
  exact ⟨front, more, hcs, hplace, hup.trans (.run hlast .done)⟩

/-- The lexemes of characters do not depend on the place that they start at. -/
theorem Covers.splits (h : Covers here cs tokens there rest) (hrest : rest = []) :
    Splits (tokens.map (·.lexeme)) cs := by
  induction h with
  | done => exact fun here => ⟨[], by rw [hrest, tokensFrom], rfl⟩
  | @run here there lexeme? front cs rest tokens hrun _ ih =>
    intro elsewhere
    obtain ⟨found, hfound, hlexemes⟩ := ih hrest (elsewhere.after front)
    refine ⟨tokenAt elsewhere lexeme? ++ found, ?_, ?_⟩
    · rw [hrun.tokensFrom_eq, hfound]
      rfl
    · rw [List.map_append, List.map_append, hlexemes]
      cases lexeme? <;> rfl

end

/-! ## The tokens of a whole text -/

section

variable {text unit : String} {list : TokenList}

theorem inText_of_tokenize (h : tokenize text unit = .ok list) {l : Location}
    (hl : l ∈ list.places) : l.InText text unit := ((tokenize_eq_ok_iff.mp h).reached hl).inText

theorem inText_of_tokenize_error {e : SyntaxError} (h : tokenize text unit = .error e) :
    e.location.InText text unit := by
  obtain ⟨tokens, there, rest, hcovers, hstops⟩ := tokenize_eq_error_iff.mp h
  obtain ⟨front, htext, rfl⟩ := hcovers.exists_front
  refine Reached.inText ?_
  rw [htext]
  exact hstops.reached.append

theorem increasing_of_tokenize (h : tokenize text unit = .ok list) :
    list.places.Pairwise (·.offset < ·.offset) := (tokenize_eq_ok_iff.mp h).increasing

theorem nodup_of_tokenize (h : tokenize text unit = .ok list) : list.places.Nodup := by
  refine (increasing_of_tokenize h).imp fun hlt heq => ?_
  rw [heq] at hlt
  exact Nat.lt_irrefl _ hlt

end

end Lexer
end EndpointDsl
