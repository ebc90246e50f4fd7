import EndpointDsl.Proofs.Tree.Rules

/-!
The rules stay inside the brackets they read.

A rule only reads a closing bracket that answers one it opened, so the brackets that it has open are
the depth of what it has read.  As long as the depth is positive a rule looks at nothing behind the
bracket that closes the last one: it fails in front of it, or leaves what comes after alone.  This is
said of two runs that differ in what follows and in the place where the text ends.
-/

namespace EndpointDsl

/-! ## Depth -/

/-- The depth after a token. -/
def Lexeme.depthFrom (lexeme : Lexeme) (d : Nat) : Nat :=
  if lexeme.isOpener then d + 1 else if lexeme.isCloser then d - 1 else d

namespace Tree

/-- The tokens that close `d` open brackets, and end with the last of them. -/
inductive Closing : Nat → List Token → Prop
  | done : Closing 0 []
  | step {d : Nat} {t : Token} {rest : List Token}
      (h : Closing (t.lexeme.depthFrom (d + 1)) rest) : Closing (d + 1) (t :: rest)

namespace Parser

/-! ## Rules that stay inside their block -/

section

variable {α β : Type}

/-- Two steps fail alike or read alike, whatever follows the tokens at the front, and leave tokens
of the front that satisfy a condition. -/
def AgreeAt (x y : Rule α) (front : List Token) (post : α → List Token → Prop) : Prop :=
  ∀ rest rest', (∃ e, x (front ++ rest) = .error e ∧ y (front ++ rest') = .error e) ∨
    ∃ a left, post a left ∧ x (front ++ rest) = .ok (a, left ++ rest) ∧
      y (front ++ rest') = .ok (a, left ++ rest')

/-- The steps agree in front of which at most `n` tokens close `d` brackets.  What they leave closes
as many as `after` says. -/
def Local (n d : Nat) (after : α → Nat) (x y : Rule α) : Prop :=
  ∀ front, front.length ≤ n → Closing d front →
    AgreeAt x y front fun a left => Closing (after a) left ∧ left.length ≤ front.length

variable {n d : Nat} {after : α → Nat} {x y : Rule α} {f g : α → Rule β} {last : β → Nat}

theorem local_zero : Local 0 (d + 1) after x y := by
  intro front hlength hclosing
  cases hclosing with
  | step h => cases hlength

theorem local_pure (a : α) : Local n d (fun _ => d) (pure a) (pure a) :=
  fun front _ hclosing _ _ => Or.inr ⟨a, front, ⟨hclosing, Nat.le_refl _⟩, rfl, rfl⟩

theorem local_throw (e : SyntaxError) : Local n d after (throw e) (throw e) :=
  fun _ _ _ _ _ => Or.inl ⟨e, rfl, rfl⟩

theorem AgreeAt.bind {front : List Token} {post : α → List Token → Prop}
    {post' : β → List Token → Prop} (h : AgreeAt x y front post)
    (hnext : ∀ a left, post a left → AgreeAt (f a) (g a) left post') :
    AgreeAt (x >>= f) (y >>= g) front post' := by
  intro rest rest'
  rcases h rest rest' with ⟨e, hx, hy⟩ | ⟨a, left, hpost, hx, hy⟩
  · exact Or.inl ⟨e, run_bind_error hx, run_bind_error hy⟩
  · rw [run_bind hx, run_bind hy]
    exact hnext a left hpost rest rest'

theorem Local.bind (h : Local n d after x y) (hnext : ∀ a, Local n (after a) last (f a) (g a)) :
    Local n d last (x >>= f) (y >>= g) := by
  intro front hlength hclosing
  refine (h front hlength hclosing).bind fun a left hleft => ?_
  intro rest rest'
  rcases hnext a left (Nat.le_trans hleft.2 hlength) hleft.1 rest rest' with
    hfail | ⟨b, more, hmore, hread⟩
  · exact Or.inl hfail
  · exact Or.inr ⟨b, more, ⟨hmore.1, Nat.le_trans hmore.2 hleft.2⟩, hread⟩

theorem Local.agree {front : List Token} {k : Nat} (h : Local n d after x y)
    (hlength : front.length ≤ n) (hclosing : Closing d front) (hle : front.length ≤ k) :
    AgreeAt x y front fun a left => Closing (after a) left ∧ left.length ≤ k := by
  intro rest rest'
  rcases h front hlength hclosing rest rest' with hfail | ⟨a, left, hleft, hread⟩
  · exact Or.inl hfail
  · exact Or.inr ⟨a, left, ⟨hleft.1, Nat.le_trans hleft.2 hle⟩, hread⟩

/-- After a step that reads something, fewer tokens are left. -/
theorem Local.bind_shrinks (h : Local (n + 1) d after x y) (hshrinks : Shrinks x)
    (hnext : ∀ a, Local n (after a) last (f a) (g a)) :
    Local (n + 1) d last (x >>= f) (y >>= g) := by
  intro front hlength hclosing rest rest'
  rcases h front hlength hclosing rest rest' with ⟨e, hx, hy⟩ | ⟨a, left, hleft, hx, hy⟩
  · exact Or.inl ⟨e, run_bind_error hx, run_bind_error hy⟩
  · have hshorter := hshrinks _ _ _ hx
    rw [List.length_append, List.length_append] at hshorter
    rw [run_bind hx, run_bind hy]
    rcases hnext a left (by omega) hleft.1 rest rest' with hfail | ⟨b, more, hmore, hread⟩
    · exact Or.inl hfail
    · exact Or.inr ⟨b, more, ⟨hmore.1, by omega⟩, hread⟩

end

/-! ## Single tokens -/

section

variable {stop stop' : Location} {n d : Nat}

theorem local_ident (wanted : Wanted) :
    Local n (d + 1) (fun _ => d + 1) (run (ident stop wanted)) (run (ident stop' wanted)) := by
  rintro front - (_ | @⟨_, ⟨lexeme, place⟩, left, hleft⟩) rest rest'
  cases lexeme with
  | ident name => exact Or.inr ⟨⟨name, place⟩, left, ⟨hleft, Nat.le_succ _⟩, rfl, rfl⟩
  | literal value => exact Or.inl ⟨_, rfl, rfl⟩
  | punct mark => exact Or.inl ⟨_, rfl, rfl⟩

theorem local_literal (wanted : Wanted) :
    Local n (d + 1) (fun _ => d + 1) (run (literal stop wanted)) (run (literal stop' wanted)) := by
  rintro front - (_ | @⟨_, ⟨lexeme, place⟩, left, hleft⟩) rest rest'
  cases lexeme with
  | ident name => exact Or.inl ⟨_, rfl, rfl⟩
  | literal value => exact Or.inr ⟨⟨value, place⟩, left, ⟨hleft, Nat.le_succ _⟩, rfl, rfl⟩
  | punct mark => exact Or.inl ⟨_, rfl, rfl⟩

theorem local_punct (mark : Punct) (wanted : Wanted) :
    Local n (d + 1) (fun _ => (Lexeme.punct mark).depthFrom (d + 1))
      (run (punct stop mark wanted)) (run (punct stop' mark wanted)) := by
  rintro front - (_ | @⟨_, ⟨lexeme, place⟩, left, hleft⟩) rest rest'
  by_cases h : lexeme = .punct mark
  · subst h
    exact Or.inr ⟨place, left, ⟨hleft, Nat.le_succ _⟩, run_punct_mark mark wanted place _,
      run_punct_mark mark wanted place _⟩
  · exact Or.inl ⟨_, run_punct_of_ne h, run_punct_of_ne h⟩

/-- The depth after a mark that may be missing. -/
def depthAfter (mark : Punct) (d : Nat) : Option Location → Nat
  | some _ => (Lexeme.punct mark).depthFrom d
  | none => d

theorem local_accept (mark : Punct) :
    Local n (d + 1) (depthAfter mark (d + 1)) (accept mark) (accept mark) := by
  rintro front - (_ | @⟨_, ⟨lexeme, place⟩, left, hleft⟩) rest rest'
  by_cases h : lexeme = .punct mark
  · subst h
    exact Or.inr ⟨some place, left, ⟨hleft, Nat.le_succ _⟩, accept_mark mark place _,
      accept_mark mark place _⟩
  · have hne : ∀ more place' rest'',
        (⟨lexeme, place⟩ :: more : List Token) ≠ ⟨.punct mark, place'⟩ :: rest'' := by
      intro more place' rest'' heq
      cases heq
      exact h rfl
    exact Or.inr ⟨none, _, ⟨.step hleft, Nat.le_refl _⟩, accept_of_ne (hne _), accept_of_ne (hne _)⟩

theorem local_ahead (mark : Punct) :
    Local n (d + 1) (fun _ => d + 1) (ahead mark) (ahead mark) := by
  rintro front - (_ | @⟨_, ⟨lexeme, place⟩, left, hleft⟩) rest rest'
  by_cases h : lexeme = .punct mark
  · subst h
    exact Or.inr ⟨some place, _, ⟨.step hleft, Nat.le_refl _⟩, ahead_mark mark place _,
      ahead_mark mark place _⟩
  · have hne : ∀ more place' rest'',
        (⟨lexeme, place⟩ :: more : List Token) ≠ ⟨.punct mark, place'⟩ :: rest'' := by
      intro more place' rest'' heq
      cases heq
      exact h rfl
    exact Or.inr ⟨none, _, ⟨.step hleft, Nat.le_refl _⟩, ahead_of_ne (hne _), ahead_of_ne (hne _)⟩

/-! ## Rules that leave the depth as it is -/

theorem local_attributeItem : Local n (d + 1) (fun _ => d + 1) (run (attributeItem stop))
    (run (attributeItem stop')) := by
  rintro front hlength (_ | @⟨_, ⟨lexeme, place⟩, left, hleft⟩) rest rest'
  cases lexeme with
  | literal value => exact Or.inr ⟨_, left, ⟨hleft, Nat.le_succ _⟩, rfl, rfl⟩
  | punct mark => exact Or.inl ⟨_, rfl, rfl⟩
  | ident key =>
    rw [List.cons_append, List.cons_append, run_attributeItem_ident, run_attributeItem_ident]
    refine Local.agree ?_ (Nat.le_of_succ_le hlength) hleft (Nat.le_succ _) rest rest'
    exact (local_accept .equals).bind fun
      | some _ => (local_literal (.attributeValue key)).bind fun value => local_pure _
      | none => local_pure _

theorem local_attributeItems : Local n (d + 2) (fun _ => d + 1) (run (attributeItems stop))
    (run (attributeItems stop')) := by
  induction n with
  | zero => exact local_zero
  | succ n ih =>
    rw [@run_attributeItems stop, @run_attributeItems stop']
    refine (local_accept .rightBracket).bind fun
      | some _ => local_pure []
      | none => ?_
    refine local_attributeItem.bind_shrinks (shrinks_run _) fun item => ?_
    refine (local_accept .comma).bind fun
      | some _ => ih.bind fun others => local_pure (item :: others)
      | none => (local_punct .rightBracket .attributeClosing).bind fun _ => local_pure [item]

theorem local_bracketed : Local n (d + 1) (fun _ => d + 1) (run (bracketed stop))
    (run (bracketed stop')) := by
  rw [@run_bracketed stop, @run_bracketed stop']
  refine (local_punct .leftBracket .attributeItem).bind fun opening => ?_
  refine local_attributeItems.bind fun items => ?_
  split
  · exact local_throw _
  · exact local_pure _

theorem local_attributes : Local n (d + 1) (fun _ => d + 1) (runOptional (attributes stop))
    (runOptional (attributes stop')) := by
  induction n with
  | zero => exact local_zero
  | succ n ih =>
    rw [@run_attributes stop, @run_attributes stop']
    refine (local_ahead .leftBracket).bind fun
      | some _ => local_bracketed.bind_shrinks (shrinks_run _) fun first =>
          ih.bind fun others => local_pure (first :: others)
      | none => local_pure []

/-- The rules for types, which call each other on shorter lists. -/
theorem local_types : (∀ d, Local n (d + 1) (fun _ => d + 1) (run (typeExpr stop))
      (run (typeExpr stop'))) ∧
    (∀ d start optional, Local n (d + 1) (fun _ => d + 1) (run (namedType stop start optional))
      (run (namedType stop' start optional))) ∧
    ∀ d, Local n (d + 1) (fun _ => d + 1) (run (typeArgs stop)) (run (typeArgs stop')) := by
  induction n with
  | zero => exact ⟨fun _ => local_zero, fun _ _ _ => local_zero, fun _ => local_zero⟩
  | succ n ih =>
    obtain ⟨-, -, hargs⟩ := ih
    have hnamed : ∀ d start optional, Local (n + 1) (d + 1) (fun _ => d + 1)
        (run (namedType stop start optional)) (run (namedType stop' start optional)) := by
      intro d start optional
      rw [run_namedType, run_namedType]
      refine (local_ident .typeName).bind_shrinks (shrinks_run _) fun name => ?_
      refine (local_accept .leftAngle).bind fun
        | none => local_pure _
        | some _ => ?_
      exact (local_ahead .rightAngle).bind fun
        | some place => local_throw _
        | none => (hargs d).bind fun args => local_pure _
    have htype : ∀ d, Local (n + 1) (d + 1) (fun _ => d + 1) (run (typeExpr stop))
        (run (typeExpr stop')) := by
      intro d front hlength hclosing rest rest'
      rw [run_typeExpr, run_typeExpr]
      -- The front is not empty, so that a type without a mark starts at the same place.
      have hhere : here stop (front ++ rest) = here stop' (front ++ rest') := by
        cases hclosing
        rfl
      rw [hhere]
      exact ((local_accept .question).bind fun
        | some place => hnamed d place true
        | none => hnamed d (here stop' (front ++ rest')) false) front hlength hclosing rest rest'
    refine ⟨htype, hnamed, fun d => ?_⟩
    rw [@run_typeArgs stop, @run_typeArgs stop']
    refine (htype d).bind_shrinks (shrinks_run _) fun first => ?_
    exact (local_accept .comma).bind fun
      | some _ => (hargs d).bind fun others => local_pure (first :: others)
      | none => (local_punct .rightAngle .argumentsClosing).bind fun _ => local_pure [first]

theorem local_typeExpr : Local n (d + 1) (fun _ => d + 1) (run (typeExpr stop))
    (run (typeExpr stop')) :=
  local_types.1 d

theorem local_separator (separator : Separator) :
    Local n (d + 1) (fun _ => d + 1) separator.rule separator.rule := by
  cases separator with
  | nothing => exact local_pure ()
  | optionalComma =>
    exact (local_accept .comma).bind fun
      | some _ => local_pure ()
      | none => local_pure ()

/-- The text ends inside a block only where the block ends, so that the error for it plays no
part. -/
theorem local_members {α : Type}
    {rule rule' : (ts : List Token) → Except SyntaxError (Reading ts α)} {separator : Separator}
    {unclosed : SyntaxError}
    (hrule : ∀ n, Local n (d + 2) (fun _ => d + 2) (run rule) (run rule')) :
    Local n (d + 2) (fun _ => d + 1) (run (members rule separator unclosed))
      (run (members rule' separator unclosed)) := by
  induction n with
  | zero => exact local_zero
  | succ n ih =>
    rintro front hlength (_ | @⟨_, t, left, hleft⟩) rest rest'
    rw [List.cons_append, List.cons_append, run_members_cons, run_members_cons]
    refine Local.agree ?_ hlength (.step hleft) (Nat.le_refl _) rest rest'
    exact (local_accept .rightBrace).bind fun
      | some _ => local_pure []
      | none => (hrule (n + 1)).bind_shrinks (shrinks_run _) fun first =>
          (local_separator separator).bind fun _ =>
            ih.bind fun others => local_pure (first :: others)

theorem local_field : Local n (d + 1) (fun _ => d + 1) (run (field stop)) (run (field stop')) := by
  rw [@run_field stop, @run_field stop']
  exact local_attributes.bind fun attrs => (local_ident .fieldName).bind fun name =>
    (local_punct .colon (.colonAfterField name.cause)).bind fun _ =>
      local_typeExpr.bind fun type => local_pure _

theorem local_fields (owner : String) :
    Local n (d + 1) (fun _ => d + 1) (run (fields stop owner)) (run (fields stop' owner)) := by
  rw [run_fields, run_fields]
  exact (local_punct .leftBrace (.body owner)).bind fun opening =>
    local_members fun _ => local_field

theorem local_payload (name : String) : Local n (d + 1) (fun _ => d + 1)
    (runOptional (payload stop name)) (runOptional (payload stop' name)) := by
  rw [run_payload, run_payload]
  exact (local_accept .leftParen).bind fun
    | some _ => local_typeExpr.bind fun type =>
        (local_punct .rightParen .payloadClosing).bind fun _ => local_pure (some type)
    | none => (local_ahead .leftBrace).bind fun
      | some place => local_throw _
      | none => local_pure none

theorem local_variant :
    Local n (d + 1) (fun _ => d + 1) (run (variant stop)) (run (variant stop')) := by
  rw [@run_variant stop, @run_variant stop']
  exact local_attributes.bind fun attrs => (local_ident .variantName).bind fun name =>
    (local_payload name.cause).bind fun type => local_pure _

theorem local_roleTag : Local n (d + 1) (fun _ => d + 1) (runOptional (roleTag stop))
    (runOptional (roleTag stop')) := by
  rw [@run_roleTag stop, @run_roleTag stop']
  refine (local_accept .leftAngle).bind fun
    | none => local_pure none
    | some _ => ?_
  refine (local_ident .role).bind fun word => ?_
  split
  · exact local_throw _
  · exact (local_punct .rightAngle .roleClosing).bind fun _ => local_pure _

theorem local_itemBody (attrs : List Attribute) (head : Located String) :
    Local n (d + 1) (fun _ => d + 1) (run (itemBody stop attrs head))
      (run (itemBody stop' attrs head)) := by
  rw [run_itemBody, run_itemBody]
  split
  · rw [run_roleStruct, run_roleStruct]
    exact (local_accept .colon).bind fun
      | some _ => (local_fields _).bind fun inside => local_pure _
      | none => (local_fields _).bind fun inside => local_pure _
  · split
    · rw [run_namedStruct, run_namedStruct]
      exact (local_ident .structName).bind fun name => local_roleTag.bind fun role =>
        (local_fields name.cause).bind fun inside => local_pure _
    · split
      · rw [run_enumeration, run_enumeration]
        exact (local_ident .enumName).bind fun name =>
          (local_punct .leftBrace (.enumBody name.cause)).bind fun opening =>
            (local_members fun _ => local_variant).bind fun inside => local_pure _
      · exact local_throw _

theorem local_item : Local n (d + 1) (fun _ => d + 1) (run (item stop)) (run (item stop')) := by
  rw [@run_item stop, @run_item stop']
  exact local_attributes.bind fun attrs => (local_ident .itemHead).bind fun head =>
    local_itemBody attrs head

theorem local_verb : Local n (d + 1) (fun _ => d + 1) (run (verb stop)) (run (verb stop')) := by
  rw [@run_verb stop, @run_verb stop']
  refine (local_ident .verb).bind fun word => ?_
  split
  · exact local_throw _
  · exact local_pure _

theorem local_path : Local n (d + 1) (fun _ => d + 1) (run (path stop)) (run (path stop')) := by
  rw [@run_path stop, @run_path stop']
  refine (local_literal .path).bind fun raw => ?_
  split
  · exact local_throw _
  · exact local_pure _

theorem local_method :
    Local n (d + 1) (fun _ => d + 1) (run (method stop)) (run (method stop')) := by
  rw [@run_method stop, @run_method stop']
  exact local_verb.bind fun v => local_path.bind fun p => (local_punct .arrow .arrow).bind fun _ =>
    (local_punct .leftBrace .methodBody).bind fun opening =>
      (local_members fun _ => local_item).bind fun items => local_pure _

/-- A name does not close a bracket, so that another token of the block follows it. -/
theorem local_visibility : Local n (d + 1) (fun _ => d + 1)
    (runOptional fun ts => .ok (visibility ts)) (runOptional fun ts => .ok (visibility ts)) := by
  rintro front - (_ | @⟨_, ⟨lexeme, place⟩, left, hleft⟩) rest rest'
  cases lexeme with
  | literal value => exact Or.inr ⟨false, _, ⟨.step hleft, Nat.le_refl _⟩, rfl, rfl⟩
  | punct mark => exact Or.inr ⟨false, _, ⟨.step hleft, Nat.le_refl _⟩, rfl, rfl⟩
  | ident word =>
    have hall : Closing (d + 1) (⟨.ident word, place⟩ :: left) := .step hleft
    obtain _ | @⟨_, ⟨lexeme, place'⟩, more, hmore⟩ := hleft
    cases lexeme with
    | literal value => exact Or.inr ⟨false, _, ⟨hall, Nat.le_refl _⟩, rfl, rfl⟩
    | punct mark => exact Or.inr ⟨false, _, ⟨hall, Nat.le_refl _⟩, rfl, rfl⟩
    | ident name =>
      by_cases hpub : word = "pub"
      · refine Or.inr ⟨true, _, ⟨.step hmore, Nat.le_succ _⟩, ?_, ?_⟩
        · simp [runOptional, visibility, hpub, optionalOutcome, Except.map]
        · simp [runOptional, visibility, hpub, optionalOutcome, Except.map]
      · refine Or.inr ⟨false, _, ⟨hall, Nat.le_refl _⟩, ?_, ?_⟩
        · simp [runOptional, visibility, hpub, optionalOutcome, Except.map]
        · simp [runOptional, visibility, hpub, optionalOutcome, Except.map]

end

end Parser
end Tree
end EndpointDsl
