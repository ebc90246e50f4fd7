import EndpointDsl.Proofs.Path.Template
import EndpointDsl.Source.Lexer

/-!
Texts that write given lexemes.

Lexemes are written one after the other with blanks and comments around them, and a literal with or
without the escapes it does not need.  Only two identifiers, and an equals sign and a closing angle
bracket, need something between them.  Every such text is split into the lexemes it writes.
-/

namespace EndpointDsl
namespace Lexer

open Location (after_nil after_cons)

/-- What stands between the quotes of a literal with the value. -/
inductive Quotes : List Char → List Char → Prop
  | nil : Quotes [] []
  | plain {c : Char} {value body : List Char} (hquote : c ≠ '"') (hescape : c ≠ '\\')
      (hline : c ≠ '\n') (h : Quotes value body) : Quotes (c :: value) (c :: body)
  | escaped {c d : Char} {value body : List Char} (hescape : escape? c = some d)
      (h : Quotes value body) : Quotes (d :: value) ('\\' :: c :: body)

/-- The characters write the lexemes. -/
inductive Writes : List Lexeme → List Char → Prop
  | nil : Writes [] []
  | gap {c : Char} {lexemes : List Lexeme} {cs : List Char} (hgap : isGap c = true)
      (h : Writes lexemes cs) : Writes lexemes (c :: cs)
  | comment {comment : List Char} {lexemes : List Lexeme} {cs : List Char}
      (hline : ∀ c ∈ comment, c ≠ '\n') (h : Writes lexemes cs) :
      Writes lexemes ('/' :: '/' :: (comment ++ '\n' :: cs))
  | lastComment {comment : List Char} (hline : ∀ c ∈ comment, c ≠ '\n') :
      Writes [] ('/' :: '/' :: comment)
  | ident {name : List Char} {lexemes : List Lexeme} {cs : List Char} (hname : isIdent name = true)
      (hnext : ∀ c ∈ cs.head?, isIdentRest c = false) (h : Writes lexemes cs) :
      Writes (.ident (String.ofList name) :: lexemes) (name ++ cs)
  | literal {value body : List Char} {lexemes : List Lexeme} {cs : List Char}
      (hbody : Quotes value body) (h : Writes lexemes cs) :
      Writes (.literal (String.ofList value) :: lexemes) ('"' :: (body ++ '"' :: cs))
  | punct {mark : Punct} {lexemes : List Lexeme} {cs : List Char}
      (hnext : mark = .equals → cs.head? ≠ some '>') (h : Writes lexemes cs) :
      Writes (.punct mark :: lexemes) (mark.spelling.toList ++ cs)

/-- A name goes on up to a character that cannot be in one. -/
theorem Writes.ident_before {name cs : List Char} {c : Char} {lexemes : List Lexeme}
    (hname : isIdent name = true) (hend : isIdentRest c = false) (h : Writes lexemes (c :: cs)) :
    Writes (.ident (String.ofList name) :: lexemes) (name ++ c :: cs) :=
  .ident hname (fun _ hd => Option.some.inj hd ▸ hend) h

/-! ## Literals -/

theorem literalTail_plain {c : Char} (hquote : c ≠ '"') (hescape : c ≠ '\\') (hline : c ≠ '\n')
    (opening here : Location) (cs : List Char) :
    (literalTail opening here (c :: cs)).map Reading.outcome =
      ((literalTail opening (here.next c) cs).map Reading.outcome).map fun r => (c :: r.1, r.2) := by
  rw [literalTail]
  · cases literalTail opening (here.next c) cs with
    | error e => rfl
    | ok r => rfl
  · exact hquote
  · exact hline
  · exact fun heq _ => hescape heq
  · exact fun _ _ heq _ => hescape heq

theorem literalTail_escaped {c d : Char} (hescape : escape? c = some d) (opening here : Location)
    (cs : List Char) :
    (literalTail opening here ('\\' :: c :: cs)).map Reading.outcome =
      ((literalTail opening ((here.next '\\').next c) cs).map Reading.outcome).map
        fun r => (d :: r.1, r.2) := by
  rw [literalTail]
  simp only [hescape]
  cases literalTail opening ((here.next '\\').next c) cs with
  | error e => rfl
  | ok r => rfl

/-- A body is read as its value, whatever follows it. -/
theorem literalTail_append {value body : List Char} (h : Quotes value body)
    (opening here : Location) (rest : List Char) :
    (literalTail opening here (body ++ rest)).map Reading.outcome =
      ((literalTail opening (here.after body) rest).map Reading.outcome).map
        fun r => (value ++ r.1, r.2) := by
  induction h generalizing here with
  | nil =>
    rw [List.nil_append, after_nil]
    cases literalTail opening here rest <;> rfl
  | @plain c value body hquote hescape hline _ ih =>
    rw [List.cons_append, literalTail_plain hquote hescape hline, ih, after_cons]
    cases literalTail opening ((here.next c).after body) rest <;> rfl
  | @escaped c d value body hescape _ ih =>
    rw [List.cons_append, List.cons_append, literalTail_escaped hescape, ih, after_cons, after_cons]
    cases literalTail opening (((here.next '\\').next c).after body) rest <;> rfl

theorem literalTail_of_quotes {value body : List Char} (h : Quotes value body)
    (opening here : Location) (rest : List Char) :
    (literalTail opening here (body ++ '"' :: rest)).map Reading.outcome = .ok (value, rest) := by
  rw [literalTail_append h]
  exact congrArg (fun value => Except.ok (value, rest)) (List.append_nil value)

/-! ## Tokens -/

theorem tokensFrom_cons {here : Location} {c : Char} {rest : List Char}
    (hcomment : c = '/' → rest.head? ≠ some '/') (hquote : c ≠ '"')
    (harrow : c = '=' → rest.head? ≠ some '>') :
    tokensFrom here (c :: rest) =
      if isGap c then tokensFrom (here.next c) rest
      else if isIdentStart c then
        (tokensFrom (here.after (c :: rest.takeWhile isIdentRest))
          (rest.dropWhile isIdentRest)).map
            (⟨.ident (String.ofList (c :: rest.takeWhile isIdentRest)), here⟩ :: ·)
      else if c = '=' then (tokensFrom (here.next c) rest).map (⟨.punct .equals, here⟩ :: ·)
      else
        match Punct.ofChar? c with
        | none => .error ⟨.unexpectedCharacter c, here⟩
        | some mark => (tokensFrom (here.next c) rest).map (⟨.punct mark, here⟩ :: ·) := by
  rewrite [tokensFrom]
  · rfl
  · intro more hc heq
    exact hcomment hc (by rw [heq]; rfl)
  · exact hquote
  · intro more hc heq
    exact harrow hc (by rw [heq]; rfl)

theorem tokensFrom_gap {c : Char} (hgap : isGap c = true) (here : Location) (cs : List Char) :
    tokensFrom here (c :: cs) = tokensFrom (here.next c) cs := by
  have hne : ∀ d, isGap d = false → c ≠ d := by
    rintro d hd rfl
    rw [hgap] at hd
    cases hd
  rw [tokensFrom_cons (fun hc => absurd hc (hne '/' (by decide))) (hne '"' (by decide))
    (fun hc => absurd hc (hne '=' (by decide))), if_pos hgap]

theorem tokensFrom_comment {comment : List Char} (hline : ∀ c ∈ comment, c ≠ '\n')
    {rest : List Char} (hrest : ∀ c ∈ rest.head?, c = '\n') (here : Location) :
    tokensFrom here ('/' :: '/' :: (comment ++ rest)) =
      tokensFrom (here.after ('/' :: '/' :: comment)) rest := by
  have hspan := @span_append _ (· != '\n') comment rest (fun c hc => by simpa using hline c hc)
    fun c hc => by simpa using hrest c hc
  rw [tokensFrom, hspan.1, hspan.2]

theorem tokensFrom_ident {name cs : List Char} (hname : isIdent name = true)
    (hnext : ∀ c ∈ cs.head?, isIdentRest c = false) (here : Location) :
    tokensFrom here (name ++ cs) =
      (tokensFrom (here.after name) cs).map (⟨.ident (String.ofList name), here⟩ :: ·) := by
  cases name with
  | nil => cases hname
  | cons c name =>
    rw [isIdent, Bool.and_eq_true] at hname
    obtain ⟨hstart, hrest⟩ := hname
    obtain ⟨htake, hdrop⟩ := span_append (List.all_eq_true.mp hrest) hnext
    have hne : ∀ d, isIdentStart d = false → c ≠ d := by
      rintro d hd rfl
      rw [hstart] at hd
      cases hd
    have hgap : ¬ isGap c = true := by
      intro hgap
      simp only [isGap, Bool.or_eq_true, beq_iff_eq] at hgap
      rcases hgap with ((hc | hc) | hc) | hc <;> exact hne _ (by decide) hc
    rw [List.cons_append, tokensFrom_cons (fun hc => absurd hc (hne '/' (by decide)))
      (hne '"' (by decide)) (fun hc => absurd hc (hne '=' (by decide))), if_neg hgap,
      if_pos hstart, htake, hdrop]

theorem tokensFrom_literal {value body : List Char} (hbody : Quotes value body) (here : Location)
    (cs : List Char) :
    tokensFrom here ('"' :: (body ++ '"' :: cs)) =
      (tokensFrom (here.after ('"' :: (body ++ ['"']))) cs).map
        (⟨.literal (String.ofList value), here⟩ :: ·) := by
  have hread := literalTail_of_quotes hbody here (here.next '"') cs
  cases hr : literalTail here (here.next '"') (body ++ '"' :: cs) with
  | error e =>
    rw [hr] at hread
    cases hread
  | ok r =>
    rw [hr] at hread
    obtain ⟨hvalue, hrest⟩ : r.value = value ∧ r.rest = cs := Prod.mk.inj (Except.ok.inj hread)
    have hlexeme : (body ++ '"' :: cs).take ((body ++ '"' :: cs).length - cs.length) =
        body ++ ['"'] := by
      rw [List.append_cons, List.length_append, Nat.add_sub_cancel, List.take_left]
    rw [tokensFrom, hr]
    simp only [hvalue, hrest, hlexeme]

theorem tokensFrom_punct {mark : Punct} {cs : List Char}
    (hnext : mark = .equals → cs.head? ≠ some '>') (here : Location) :
    tokensFrom here (mark.spelling.toList ++ cs) =
      (tokensFrom (here.after mark.spelling.toList) cs).map (⟨.punct mark, here⟩ :: ·) := by
  by_cases harrow : mark = .arrow
  · subst harrow
    show tokensFrom here ('=' :: '>' :: cs) = _
    rw [tokensFrom]
    rfl
  · by_cases hequals : mark = .equals
    · subst hequals
      show tokensFrom here ('=' :: cs) = _
      rw [tokensFrom_cons (fun hc => absurd hc (by decide)) (by decide) fun _ => hnext rfl]
      rfl
    · -- Every other mark is a single character of its own.
      have hchar : ∃ c, mark.spelling.toList = [c] ∧ Punct.ofChar? c = some mark ∧
          isGap c = false ∧ isIdentStart c = false ∧ c ≠ '/' ∧ c ≠ '"' ∧ c ≠ '=' := by
        cases mark <;> first | exact absurd rfl harrow | exact absurd rfl hequals | skip
        all_goals refine ⟨_, rfl, rfl, ?_⟩
        all_goals decide
      obtain ⟨c, hspelling, hmark, hgap, hstart, hslash, hquote, heq⟩ := hchar
      rw [hspelling, List.singleton_append,
        tokensFrom_cons (fun hc => absurd hc hslash) hquote (fun hc => absurd hc heq), hgap,
        hstart, hmark, if_neg (by decide), if_neg (by decide), if_neg heq]
      rfl

/-- The tokens of the characters are the lexemes. -/
def Splits (lexemes : List Lexeme) (cs : List Char) : Prop :=
  ∀ here, ∃ tokens, tokensFrom here cs = .ok tokens ∧ tokens.map (·.lexeme) = lexemes

theorem Splits.cons {lexeme : Lexeme} {lexemes : List Lexeme} {here there : Location}
    {cs rest : List Char} (h : Splits lexemes rest)
    (hstep : tokensFrom here cs = (tokensFrom there rest).map (⟨lexeme, here⟩ :: ·)) :
    ∃ tokens, tokensFrom here cs = .ok tokens ∧ tokens.map (·.lexeme) = lexeme :: lexemes := by
  obtain ⟨tokens, htokens, rfl⟩ := h there
  exact ⟨⟨lexeme, here⟩ :: tokens, by rw [hstep, htokens]; rfl, rfl⟩

/-- A text that writes lexemes is split into them. -/
theorem splits_of_writes {lexemes : List Lexeme} {cs : List Char} (h : Writes lexemes cs) :
    Splits lexemes cs := by
  induction h with
  | nil => exact fun here => ⟨[], by rw [tokensFrom], rfl⟩
  | gap hgap _ ih =>
    intro here
    rw [tokensFrom_gap hgap]
    exact ih (here.next _)
  | @comment comment lexemes cs hline _ ih =>
    intro here
    have hnext : ∀ c ∈ ('\n' :: cs).head?, c = '\n' := by simp
    rw [tokensFrom_comment hline hnext, tokensFrom_gap (by decide)]
    exact ih _
  | @lastComment comment hline =>
    intro here
    have hnext : ∀ c ∈ ([] : List Char).head?, c = '\n' := by simp
    have hstep := tokensFrom_comment hline hnext here
    rw [List.append_nil] at hstep
    exact ⟨[], by rw [hstep, tokensFrom], rfl⟩
  | ident hname hnext _ ih => exact fun here => ih.cons (tokensFrom_ident hname hnext here)
  | literal hbody _ ih => exact fun here => ih.cons (tokensFrom_literal hbody here _)
  | punct hnext _ ih => exact fun here => ih.cons (tokensFrom_punct hnext here)

/-! ## Every list of lexemes is written by some text -/

theorem exists_quotes (value : List Char) : ∃ body, Quotes value body := by
  induction value with
  | nil => exact ⟨[], .nil⟩
  | cons c value ih =>
    obtain ⟨body, h⟩ := ih
    by_cases hquote : c = '"'
    · subst hquote
      exact ⟨'\\' :: '"' :: body, .escaped rfl h⟩
    · by_cases hescape : c = '\\'
      · subst hescape
        exact ⟨'\\' :: '\\' :: body, .escaped rfl h⟩
      · by_cases hline : c = '\n'
        · subst hline
          exact ⟨'\\' :: 'n' :: body, .escaped rfl h⟩
        · exact ⟨c :: body, .plain hquote hescape hline h⟩

/-- The names are identifiers; nothing is asked of the literals. -/
theorem exists_writes {lexemes : List Lexeme}
    (h : ∀ name, Lexeme.ident name ∈ lexemes → isIdent name.toList = true) :
    ∃ text : String, Writes lexemes text.toList := by
  induction lexemes with
  | nil => exact ⟨"", .nil⟩
  | cons lexeme lexemes ih =>
    obtain ⟨text, htext⟩ := ih fun name hname => h name (List.mem_cons_of_mem lexeme hname)
    have hgap : Writes lexemes (' ' :: text.toList) := .gap (by decide) htext
    cases lexeme with
    | ident name =>
      have hwrites := Writes.ident (h name List.mem_cons_self) (by simp [isIdentRest]) hgap
      rw [String.ofList_toList] at hwrites
      exact ⟨String.ofList (name.toList ++ ' ' :: text.toList), by simpa using hwrites⟩
    | literal value =>
      obtain ⟨body, hbody⟩ := exists_quotes value.toList
      have hwrites := Writes.literal hbody hgap
      rw [String.ofList_toList] at hwrites
      exact ⟨String.ofList ('"' :: (body ++ '"' :: ' ' :: text.toList)), by simpa using hwrites⟩
    | punct mark =>
      have hwrites : Writes (.punct mark :: lexemes) _ := .punct (by simp) hgap
      exact ⟨String.ofList (mark.spelling.toList ++ ' ' :: text.toList), by simpa using hwrites⟩

theorem tokenize_of_writes {text : String} {lexemes : List Lexeme}
    (h : Writes lexemes text.toList) (unit : String) :
    ∃ list, tokenize text unit = .ok list ∧ list.tokens.map (·.lexeme) = lexemes := by
  obtain ⟨tokens, htokens, hlexemes⟩ := splits_of_writes h (.start unit)
  exact ⟨⟨tokens, (Location.start unit).after text.toList⟩, by rw [tokenize, htokens]; rfl, hlexemes⟩

end Lexer
end EndpointDsl
