import EndpointDsl.Proofs.Source.Writing

/-!
The runs that a text falls into.

A run is a blank, a comment or the characters of one token.  A scan takes one run after the other,
until the text ends or stands at characters that start no run.  What a scan answers is exactly what
such a division of the text says: the tokens of the runs, each at the place where its run starts, or
the error of the characters that start none.
-/

namespace EndpointDsl
namespace Lexer

/-- The characters that a lexeme is read from. -/
inductive Spelling : Lexeme → List Char → Prop
  | ident {name : List Char} (hname : isIdent name = true) :
      Spelling (.ident (String.ofList name)) name
  | literal {value body : List Char} (hbody : Quotes value body) :
      Spelling (.literal (String.ofList value)) ('"' :: (body ++ ['"']))
  | punct (mark : Punct) : Spelling (.punct mark) mark.spelling.toList

/-- The lexeme would be a longer one with the character behind it. -/
def goesOn : Lexeme → Char → Bool
  | .ident _, c => isIdentRest c
  | .literal _, _ => false
  | .punct mark, c => mark == .equals && c == '>'

/-- The characters of one token, or of something between tokens, in front of others.  A comment
reaches to the end of its line, and a token as far as it can. -/
inductive Run : Option Lexeme → List Char → List Char → Prop
  | gap {c : Char} {rest : List Char} (hgap : isGap c = true) : Run none [c] rest
  | comment {comment rest : List Char} (hline : ∀ c ∈ comment, c ≠ '\n')
      (hend : ∀ c ∈ rest.head?, c = '\n') : Run none ('/' :: '/' :: comment) rest
  | token {lexeme : Lexeme} {written rest : List Char} (hspelling : Spelling lexeme written)
      (hend : ∀ c ∈ rest.head?, goesOn lexeme c = false) : Run (some lexeme) written rest

/-- The token that a run is, if it is one. -/
def tokenAt (here : Location) (lexeme? : Option Lexeme) : List Token :=
  (lexeme?.map (⟨·, here⟩)).toList

/-- The runs from one place to another, and their tokens. -/
inductive Covers : Location → List Char → List Token → Location → List Char → Prop
  | done {here : Location} {rest : List Char} : Covers here rest [] here rest
  | run {here there : Location} {lexeme? : Option Lexeme} {front cs rest : List Char}
      {tokens : List Token} (hrun : Run lexeme? front cs)
      (h : Covers (here.after front) cs tokens there rest) :
      Covers here (front ++ cs) (tokenAt here lexeme? ++ tokens) there rest

/-- The characters start no run. -/
inductive Stops (here : Location) : List Char → SyntaxError → Prop
  | character {c : Char} {rest : List Char} (hcomment : c = '/' → rest.head? ≠ some '/')
      (hquote : c ≠ '"') (hequals : c ≠ '=') (hgap : isGap c = false)
      (hstart : isIdentStart c = false) (hmark : Punct.ofChar? c = none) :
      Stops here (c :: rest) ⟨.unexpectedCharacter c, here⟩
  | unterminated {value body rest : List Char} (hbody : Quotes value body)
      (hend : ∀ c ∈ rest.head?, c = '\n') :
      Stops here ('"' :: (body ++ rest)) ⟨.unterminatedLiteral, here⟩
  | escape {value body rest : List Char} (hbody : Quotes value body)
      (hend : ∀ c ∈ rest.head?, escape? c = none) :
      Stops here ('"' :: (body ++ '\\' :: rest)) ⟨.invalidEscape, here.after ('"' :: body)⟩

/-- Where the body of a literal ends: at a quote, at the end of the line, or at a backslash that
starts no escape. -/
inductive BodyEnd : List Char → Prop
  | quote (rest : List Char) : BodyEnd ('"' :: rest)
  | line {rest : List Char} (hend : ∀ c ∈ rest.head?, c = '\n') : BodyEnd rest
  | escape {rest : List Char} (hend : ∀ c ∈ rest.head?, escape? c = none) : BodyEnd ('\\' :: rest)

section

variable {here there : Location} {cs front rest : List Char} {lexeme? : Option Lexeme}
  {tokens : List Token} {e : SyntaxError}

/-! ## Literals -/

/-- Any characters are a body and what ends it. -/
theorem exists_body (cs : List Char) :
    ∃ value body rest, Quotes value body ∧ cs = body ++ rest ∧ BodyEnd rest := by
  induction hn : cs.length using Nat.strongRecOn generalizing cs with
  | ind n ih =>
    subst hn
    cases cs with
    | nil => exact ⟨[], [], [], .nil, rfl, .line (by simp)⟩
    | cons c cs =>
      by_cases hquote : c = '"'
      · exact ⟨[], [], c :: cs, .nil, rfl, hquote ▸ .quote cs⟩
      by_cases hline : c = '\n'
      · exact ⟨[], [], c :: cs, .nil, rfl, .line (by simpa using hline)⟩
      by_cases hescape : c = '\\'
      · subst hescape
        cases cs with
        | nil => exact ⟨[], [], ['\\'], .nil, rfl, .escape (by simp)⟩
        | cons d cs =>
          cases hd : escape? d with
          | none => exact ⟨[], [], '\\' :: d :: cs, .nil, rfl, .escape (by simpa using hd)⟩
          | some x =>
            have hlength : cs.length < ('\\' :: d :: cs).length := by
              simp only [List.length_cons]
              omega
            obtain ⟨value, body, rest, hbody, rfl, hend⟩ := ih cs.length hlength cs rfl
            exact ⟨x :: value, '\\' :: d :: body, rest, .escaped hd hbody, rfl, hend⟩
      · obtain ⟨value, body, rest, hbody, rfl, hend⟩ := ih cs.length (Nat.lt_succ_self _) cs rfl
        exact ⟨c :: value, c :: body, rest, .plain hquote hescape hline hbody, rfl, hend⟩

theorem literalTail_unterminated {value body : List Char} (hbody : Quotes value body)
    (hend : ∀ c ∈ rest.head?, c = '\n') (opening here : Location) :
    (literalTail opening here (body ++ rest)).map Reading.outcome =
      .error ⟨.unterminatedLiteral, opening⟩ := by
  rw [literalTail_append hbody]
  cases rest with
  | nil => rfl
  | cons c rest =>
    obtain rfl : c = '\n' := hend c rfl
    rfl

theorem literalTail_escape {value body : List Char} (hbody : Quotes value body)
    (hend : ∀ c ∈ rest.head?, escape? c = none) (opening here : Location) :
    (literalTail opening here (body ++ '\\' :: rest)).map Reading.outcome =
      .error ⟨.invalidEscape, here.after body⟩ := by
  rw [literalTail_append hbody]
  cases rest with
  | nil => rfl
  | cons c rest =>
    rw [literalTail]
    rw [hend c rfl]
    rfl

/-! ## One run -/

theorem spelling_of_ofChar? {c : Char} {mark : Punct} (h : Punct.ofChar? c = some mark) :
    mark.spelling.toList = [c] ∧ mark ≠ .equals := by
  unfold Punct.ofChar? at h
  split at h <;> cases h <;> exact ⟨by decide, by decide⟩

theorem of_mem_head?_dropWhile {p : Char → Bool} {cs : List Char} {c : Char}
    (h : c ∈ (cs.dropWhile p).head?) : p c = false := by
  have hnot := List.head?_dropWhile_not p cs
  rw [Option.mem_def.mp h] at hnot
  exact hnot

theorem tokensFrom_spelling {lexeme : Lexeme} {written : List Char}
    (hspelling : Spelling lexeme written) (hend : ∀ c ∈ rest.head?, goesOn lexeme c = false)
    (here : Location) :
    tokensFrom here (written ++ rest) =
      (tokensFrom (here.after written) rest).map (⟨lexeme, here⟩ :: ·) := by
  cases hspelling with
  | ident hname => exact tokensFrom_ident hname hend here
  | literal hbody =>
    rw [List.cons_append, List.append_assoc]
    exact tokensFrom_literal hbody here rest
  | punct mark =>
    refine tokensFrom_punct (fun hequals hhead => ?_) here
    have hnot := hend '>' hhead
    rw [hequals] at hnot
    cases hnot

theorem map_nil_append (x : Except SyntaxError (List Token)) : x.map ([] ++ ·) = x := by
  cases x <;> rfl

/-- A scan takes a run as a whole. -/
theorem Run.tokensFrom_eq (h : Run lexeme? front rest) (here : Location) :
    tokensFrom here (front ++ rest) =
      (tokensFrom (here.after front) rest).map (tokenAt here lexeme? ++ ·) := by
  cases h with
  | gap hgap =>
    rw [List.singleton_append, tokensFrom_gap hgap]
    exact (map_nil_append _).symm
  | comment hline hend =>
    rw [List.cons_append, List.cons_append, tokensFrom_comment hline hend]
    exact (map_nil_append _).symm
  | token hspelling hend => exact tokensFrom_spelling hspelling hend here

theorem Run.ne_nil (h : Run lexeme? front rest) : front ≠ [] := by
  cases h with
  | gap => exact List.cons_ne_nil _ _
  | comment => exact List.cons_ne_nil _ _
  | token hspelling =>
    cases hspelling with
    | ident hname =>
      rintro rfl
      cases hname
    | literal => exact List.cons_ne_nil _ _
    | punct mark => cases mark <;> decide

/-- A scan ends with the error of characters that start no run. -/
theorem Stops.tokensFrom_eq (h : Stops here cs e) : tokensFrom here cs = .error e := by
  have hliteral : ∀ {cs e}, (literalTail here (here.next '"') cs).map Reading.outcome = .error e →
      tokensFrom here ('"' :: cs) = .error e := by
    intro cs e hread
    rw [tokensFrom]
    cases hr : literalTail here (here.next '"') cs with
    | ok r =>
      rw [hr] at hread
      cases hread
    | error e' =>
      rw [hr] at hread
      cases hread
      rfl
  cases h with
  | character hcomment hquote hequals hgap hstart hmark =>
    rw [tokensFrom_cons hcomment hquote (fun h => absurd h hequals), hgap, hstart, hmark,
      if_neg (by decide), if_neg (by decide), if_neg hequals]
  | unterminated hbody hend => exact hliteral (literalTail_unterminated hbody hend here _)
  | escape hbody hend => exact hliteral (literalTail_escape hbody hend here _)

theorem exists_run_of_quote (here : Location) (cs : List Char) :
    (∃ lexeme? front rest, '"' :: cs = front ++ rest ∧ Run lexeme? front rest) ∨
      ∃ e, Stops here ('"' :: cs) e := by
  obtain ⟨value, body, rest, hbody, rfl, hend⟩ := exists_body cs
  cases hend with
  | quote rest =>
    refine Or.inl ⟨_, '"' :: (body ++ ['"']), rest, ?_, .token (.literal hbody) fun _ _ => rfl⟩
    rw [List.cons_append, List.append_assoc, List.singleton_append]
  | line hend => exact Or.inr ⟨_, .unterminated hbody hend⟩
  | escape hend => exact Or.inr ⟨_, .escape hbody hend⟩

/-- Characters start with a run or start none. -/
theorem exists_run (here : Location) (hne : cs ≠ []) :
    (∃ lexeme? front rest, cs = front ++ rest ∧ Run lexeme? front rest) ∨ ∃ e, Stops here cs e := by
  fun_cases tokensFrom here cs with
  | case1 => exact absurd rfl hne
  | case2 rest =>
    refine Or.inl ⟨none, '/' :: '/' :: rest.takeWhile (· != '\n'), rest.dropWhile (· != '\n'), ?_,
      .comment (fun c hc => ?_) fun c hc => ?_⟩
    · simp
    · simpa using List.mem_takeWhile_imp hc
    · simpa using of_mem_head?_dropWhile hc
  | case3 rest => exact exists_run_of_quote here rest
  | case4 rest => exact exists_run_of_quote here rest
  | case5 rest => exact Or.inl ⟨_, ['=', '>'], rest, rfl, .token (.punct .arrow) (fun _ _ => rfl)⟩
  | case6 c rest _ _ _ hgap => exact Or.inl ⟨none, [c], rest, rfl, .gap hgap⟩
  | case7 c rest _ _ _ _ hstart =>
    refine Or.inl ⟨_, c :: rest.takeWhile isIdentRest, rest.dropWhile isIdentRest, ?_,
      .token (.ident ?_) fun c hc => of_mem_head?_dropWhile hc⟩
    · simp
    · rw [isIdent, hstart, Bool.true_and, List.all_eq_true]
      exact fun c hc => List.mem_takeWhile_imp hc
  | case8 rest _ _ harrow =>
    refine Or.inl ⟨_, ['='], rest, rfl, .token (.punct .equals) fun c hc => ?_⟩
    obtain ⟨more, rfl⟩ := List.head?_eq_some_iff.mp hc
    refine beq_false_of_ne ?_
    rintro rfl
    exact harrow more rfl rfl
  | case9 c rest hcomment hquote _ hgap hstart hequals hmark =>
    refine Or.inr ⟨_, .character (fun hc hhead => ?_) hquote hequals (by simpa using hgap)
      (by simpa using hstart) hmark⟩
    obtain ⟨more, rfl⟩ := List.head?_eq_some_iff.mp hhead
    exact hcomment more hc rfl
  | case10 c rest _ _ _ _ _ _ mark hmark =>
    obtain ⟨hspelling, hequals⟩ := spelling_of_ofChar? hmark
    refine Or.inl ⟨some (.punct mark), [c], rest, rfl, .token (hspelling ▸ .punct mark) ?_⟩
    intro d _
    rw [goesOn, beq_false_of_ne hequals, Bool.false_and]

/-! ## A whole text -/

theorem Covers.tokensFrom_eq (h : Covers here cs tokens there rest) :
    tokensFrom here cs = (tokensFrom there rest).map (tokens ++ ·) := by
  induction h with
  | done => exact (map_nil_append _).symm
  | @run here there lexeme? front cs rest tokens hrun _ ih =>
    rw [hrun.tokensFrom_eq, ih]
    cases tokensFrom there rest with
    | error e => rfl
    | ok later => exact congrArg Except.ok (List.append_assoc _ _ _).symm

/-- A text falls into runs up to its end or up to characters that start none. -/
theorem exists_covers (here : Location) (cs : List Char) :
    ∃ tokens there rest, Covers here cs tokens there rest ∧ (rest = [] ∨ ∃ e, Stops there rest e) := by
  induction hn : cs.length using Nat.strongRecOn generalizing here cs with
  | ind n ih =>
    by_cases hne : cs = []
    · exact ⟨[], here, cs, .done, Or.inl hne⟩
    rcases exists_run here hne with ⟨lexeme?, front, more, rfl, hrun⟩ | hstops
    · have hlength : more.length < n := by
        have hpos := List.length_pos_iff.mpr hrun.ne_nil
        rw [List.length_append] at hn
        omega
      obtain ⟨tokens, there, rest, h, hend⟩ := ih more.length hlength (here.after front) more rfl
      exact ⟨_, there, rest, .run hrun h, hend⟩
    · exact ⟨[], here, cs, .done, Or.inr hstops⟩

theorem Covers.exists_front (h : Covers here cs tokens there rest) :
    ∃ front, cs = front ++ rest ∧ there = here.after front := by
  induction h with
  | done => exact ⟨[], rfl, rfl⟩
  | @run here there lexeme? front cs rest tokens _ _ ih =>
    obtain ⟨more, rfl, rfl⟩ := ih
    exact ⟨front ++ more, (List.append_assoc _ _ _).symm, (Location.after_append _ _ _).symm⟩

/-- The tokens of characters are those of the runs that they fall into. -/
theorem tokensFrom_eq_ok_iff :
    tokensFrom here cs = .ok tokens ↔ Covers here cs tokens (here.after cs) [] := by
  constructor
  · intro h
    obtain ⟨found, there, rest, hcovers, rfl | ⟨e, hstops⟩⟩ := exists_covers here cs
    · obtain ⟨front, hfront, hthere⟩ := hcovers.exists_front
      have hread := hcovers.tokensFrom_eq
      rw [h, tokensFrom] at hread
      obtain rfl : tokens = found := by simpa [Except.map] using hread
      rwa [hthere, ← List.append_nil front, ← hfront] at hcovers
    · rw [hcovers.tokensFrom_eq, hstops.tokensFrom_eq] at h
      cases h
  · intro hcovers
    rw [hcovers.tokensFrom_eq, tokensFrom]
    exact congrArg Except.ok (List.append_nil tokens)

/-- The error of characters is that of the ones behind their runs. -/
theorem tokensFrom_eq_error_iff :
    tokensFrom here cs = .error e ↔
      ∃ tokens there rest, Covers here cs tokens there rest ∧ Stops there rest e := by
  constructor
  · intro h
    obtain ⟨tokens, there, rest, hcovers, rfl | ⟨e', hstops⟩⟩ := exists_covers here cs
    · rw [hcovers.tokensFrom_eq, tokensFrom] at h
      cases h
    · rw [hcovers.tokensFrom_eq, hstops.tokensFrom_eq] at h
      cases h
      exact ⟨tokens, there, rest, hcovers, hstops⟩
  · rintro ⟨tokens, there, rest, hcovers, hstops⟩
    rw [hcovers.tokensFrom_eq, hstops.tokensFrom_eq]
    rfl

variable {text unit : String} {list : TokenList}

theorem tokenize_eq_ok_iff :
    tokenize text unit = .ok list ↔
      Covers (.start unit) text.toList list.tokens list.stop [] := by
  rw [tokenize]
  constructor
  · intro h
    cases htokens : tokensFrom (.start unit) text.toList with
    | error e =>
      rw [htokens] at h
      cases h
    | ok tokens =>
      rw [htokens] at h
      cases h
      exact tokensFrom_eq_ok_iff.mp htokens
  · intro h
    obtain ⟨front, hfront, hstop⟩ := h.exists_front
    rw [List.append_nil] at hfront
    rw [hstop, ← hfront] at h
    rw [tokensFrom_eq_ok_iff.mpr h, hfront]
    show Except.ok (TokenList.mk list.tokens ((Location.start unit).after front)) = .ok list
    rw [← hstop]

theorem tokenize_eq_error_iff :
    tokenize text unit = .error e ↔
      ∃ tokens there rest, Covers (.start unit) text.toList tokens there rest ∧
        Stops there rest e := by
  rw [tokenize, ← tokensFrom_eq_error_iff]
  cases tokensFrom (.start unit) text.toList with
  | error e' =>
    constructor <;>
    · intro h
      cases h
      rfl
  | ok tokens =>
    constructor <;>
    · intro h
      cases h

end
end Lexer
end EndpointDsl
