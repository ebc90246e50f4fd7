import EndpointDsl.Proofs.Source.Runs

/-!
Tokens written apart.

Lexemes are written one after the other, with blanks and comments before, between and after them,
and a literal stands between quotes with a quote, a backslash and a newline escaped.  As long as
something stands between any two of them, a scan finds the same lexemes again, whatever the literals
and the comments hold.
-/

namespace EndpointDsl
namespace Lexer

/-- A character of a literal, as it stands between the quotes. -/
def escaped (c : Char) : List Char :=
  if c = '"' then ['\\', '"']
  else if c = '\\' then ['\\', '\\']
  else if c = '\n' then ['\\', 'n']
  else [c]

/-- The characters that a lexeme is written as. -/
def spelled : Lexeme → List Char
  | .ident name => name.toList
  | .literal value => '"' :: (value.toList.flatMap escaped ++ ['"'])
  | .punct mark => mark.spelling.toList

/-- What may stand between two tokens. -/
inductive Separator
  | blank (c : Char) (hgap : isGap c = true)
  | comment (text : List Char) (hline : '\n' ∉ text)

def Separator.chars : Separator → List Char
  | blank c _ => [c]
  | comment text _ => '/' :: '/' :: (text ++ ['\n'])

/-- Lexemes with separators behind each of them, and separators in front of all. -/
def spaced (first : List Separator) (rows : List (Lexeme × List Separator)) : List Char :=
  first.flatMap Separator.chars ++ rows.flatMap fun r => spelled r.1 ++ r.2.flatMap Separator.chars

/-- A name is an identifier; nothing is asked of a literal. -/
def Legal (lexeme : Lexeme) : Prop := ∀ name, lexeme = .ident name → isIdent name.toList = true

section

variable {lexeme : Lexeme} {lexemes : List Lexeme} {cs : List Char}

theorem quotes_escaped (value : List Char) : Quotes value (value.flatMap escaped) := by
  induction value with
  | nil => exact .nil
  | cons c value ih =>
    rw [List.flatMap_cons, escaped]
    by_cases hquote : c = '"'
    · subst hquote
      exact .escaped rfl ih
    by_cases hescape : c = '\\'
    · subst hescape
      exact .escaped rfl ih
    by_cases hline : c = '\n'
    · subst hline
      exact .escaped rfl ih
    · rw [if_neg hquote, if_neg hescape, if_neg hline]
      exact .plain hquote hescape hline ih

theorem writes_spelled (hlegal : Legal lexeme) (hend : ∀ c ∈ cs.head?, goesOn lexeme c = false)
    (h : Writes lexemes cs) : Writes (lexeme :: lexemes) (spelled lexeme ++ cs) := by
  cases lexeme with
  | ident name =>
    have hwrites := Writes.ident (hlegal name rfl) hend h
    rwa [String.ofList_toList] at hwrites
  | literal value =>
    have hwrites := Writes.literal (quotes_escaped value.toList) h
    rw [String.ofList_toList] at hwrites
    simpa [spelled] using hwrites
  | punct mark =>
    refine .punct (fun hequals hhead => ?_) h
    have hnot := hend '>' hhead
    rw [hequals] at hnot
    cases hnot

theorem writes_separators (gap : List Separator) (h : Writes lexemes cs) :
    Writes lexemes (gap.flatMap Separator.chars ++ cs) := by
  induction gap with
  | nil => exact h
  | cons s gap ih =>
    rw [List.flatMap_cons, List.append_assoc]
    cases s with
    | blank c hgap => exact .gap hgap ih
    | comment text hline =>
      have hwrites := Writes.comment (fun c hc heq => hline (heq ▸ hc)) ih
      simpa [Separator.chars] using hwrites

/-- No lexeme goes on with what separates it from the next one. -/
theorem goesOn_separator (s : Separator) (lexeme : Lexeme) :
    ∀ c ∈ (s.chars ++ cs).head?, goesOn lexeme c = false := by
  intro c hc
  have hfirst : isIdentRest c = false ∧ c ≠ '>' := by
    cases s with
    | blank d hgap =>
      obtain rfl : d = c := Option.some.inj hc
      simp only [isGap, Bool.or_eq_true, beq_iff_eq] at hgap
      rcases hgap with ((rfl | rfl) | rfl) | rfl <;> decide
    | comment text hline =>
      obtain rfl : '/' = c := Option.some.inj hc
      decide
  cases lexeme with
  | ident name => exact hfirst.1
  | literal value => rfl
  | punct mark => rw [goesOn, beq_false_of_ne hfirst.2, Bool.and_false]

theorem writes_rows {rows : List (Lexeme × List Separator)} (hlegal : ∀ r ∈ rows, Legal r.1)
    (hapart : ∀ r ∈ rows.dropLast, r.2 ≠ []) :
    Writes (rows.map (·.1)) (rows.flatMap fun r => spelled r.1 ++ r.2.flatMap Separator.chars) := by
  induction rows with
  | nil => exact .nil
  | cons r rows ih =>
    obtain ⟨lexeme, gap⟩ := r
    obtain ⟨hfirst, hrest⟩ := List.forall_mem_cons.mp hlegal
    have hlater := ih hrest fun r hr => hapart r ?_
    · rw [List.flatMap_cons, List.append_assoc]
      refine writes_spelled hfirst ?_ (writes_separators gap hlater)
      cases gap with
      | cons s gap =>
        rw [List.flatMap_cons, List.append_assoc]
        exact goesOn_separator s lexeme
      | nil =>
        -- Nothing stands behind a lexeme only if it is the last one.
        cases rows with
        | nil => nofun
        | cons next rows => exact absurd rfl (hapart (lexeme, []) List.mem_cons_self)
    · cases rows with
      | nil => cases hr
      | cons next rows => exact List.mem_cons_of_mem _ hr

end

/-- Lexemes that are written apart are found again, and nothing else is. -/
theorem tokenize_spaced (unit : String) (first : List Separator)
    {rows : List (Lexeme × List Separator)} (hlegal : ∀ r ∈ rows, Legal r.1)
    (hapart : ∀ r ∈ rows.dropLast, r.2 ≠ []) :
    ∃ list, tokenize (String.ofList (spaced first rows)) unit = .ok list ∧
      list.tokens.map (·.lexeme) = rows.map (·.1) ∧
      list.stop = (Location.start unit).after (spaced first rows) := by
  have hwrites : Writes (rows.map (·.1)) (String.ofList (spaced first rows)).toList := by
    rw [String.toList_ofList]
    exact writes_separators first (writes_rows hlegal hapart)
  obtain ⟨list, hlist, hlexemes⟩ := tokenize_of_writes hwrites unit
  obtain ⟨front, hfront, hstop⟩ := (tokenize_eq_ok_iff.mp hlist).exists_front
  rw [String.toList_ofList, List.append_nil] at hfront
  exact ⟨list, hlist, hlexemes, hfront ▸ hstop⟩

/-! ## Marks that are not an arrow, and a literal that is no comment -/

def apartRows : List (Lexeme × List Separator) :=
  [(.punct .equals, [.comment "=>".toList (by decide)]), (.punct .rightAngle, [.blank '\r' rfl]),
   (.ident "a", [.blank ' ' rfl, .blank '\t' rfl]), (.literal "// \"\\\n", [])]

theorem apart_rows_found : (∀ r ∈ apartRows, Legal r.1) ∧ (∀ r ∈ apartRows.dropLast, r.2 ≠ []) ∧
    String.ofList (spaced [] apartRows) = "=//=>\n>\ra \t\"// \\\"\\\\\\n\"" ∧
    ∃ list, tokenize "=//=>\n>\ra \t\"// \\\"\\\\\\n\"" "" = .ok list ∧
      list.tokens.map (·.lexeme) =
        [.punct .equals, .punct .rightAngle, .ident "a", .literal "// \"\\\n"] := by
  have hlegal : ∀ r ∈ apartRows, Legal r.1 := by
    simp only [apartRows, List.forall_mem_cons]
    refine ⟨nofun, nofun, ?_, nofun, nofun⟩
    rintro name ⟨⟩
    decide
  have hapart : ∀ r ∈ apartRows.dropLast, r.2 ≠ [] := by simp [apartRows]
  have htext : String.ofList (spaced [] apartRows) = "=//=>\n>\ra \t\"// \\\"\\\\\\n\"" := by decide
  obtain ⟨list, hlist, hlexemes, -⟩ := tokenize_spaced "" [] hlegal hapart
  exact ⟨hlegal, hapart, htext, list, htext ▸ hlist, hlexemes⟩

end Lexer
end EndpointDsl
