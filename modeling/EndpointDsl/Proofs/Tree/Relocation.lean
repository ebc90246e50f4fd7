import EndpointDsl.Proofs.Source.Relocation
import EndpointDsl.Proofs.Tree.Rules

/-!
The tree of tokens whose places are moved.

Every rule of the parser follows a move of the places: it fails with the same cause at the moved
place, or reads the same value with its places moved and leaves the moved rest.  So do the blocks
one after another, and with them the whole tree.
-/

namespace EndpointDsl
namespace Tree

/-! ## Trees with moved places -/

section

variable (f : Location → Location)

def TypeExpr.relocate : TypeExpr → TypeExpr
  | ⟨name, optional, args, location⟩ => ⟨name, optional, args.map relocate, f location⟩

def AttributeItem.relocate (i : AttributeItem) : AttributeItem :=
  { i with location := f i.location }

def Attribute.relocate (a : Attribute) : Attribute :=
  { items := a.items.map (·.relocate f), location := f a.location }

def Field.relocate (d : Field) : Field :=
  { name := d.name, type := d.type.relocate f, attributes := d.attributes.map (·.relocate f),
    location := f d.location }

def Variant.relocate (v : Variant) : Variant :=
  { name := v.name, payload := v.payload.map (·.relocate f),
    attributes := v.attributes.map (·.relocate f), location := f v.location }

def Struct.relocate (s : Struct) : Struct :=
  { name := s.name, role := s.role, fields := s.fields.map (·.relocate f),
    attributes := s.attributes.map (·.relocate f), location := f s.location }

def Enum.relocate (e : Enum) : Enum :=
  { name := e.name, variants := e.variants.map (·.relocate f),
    attributes := e.attributes.map (·.relocate f), location := f e.location }

def Item.relocate : Item → Item
  | .struct s => .struct (s.relocate f)
  | .enum e => .enum (e.relocate f)

def Method.relocate (m : Method) : Method :=
  { verb := m.verb, path := m.path, pathLocation := f m.pathLocation,
    items := m.items.map (·.relocate f), location := f m.location }

def Endpoint.relocate (e : Endpoint) : Endpoint :=
  { name := e.name, isPublic := e.isPublic, methods := e.methods.map (·.relocate f),
    location := f e.location }

def Source.relocate (s : Source) : Source :=
  { s with endpoints := s.endpoints.map (·.relocate f) }

def Parsed.relocate (p : Parsed) : Parsed :=
  { source := p.source.relocate f, errors := p.errors.map (·.relocate f) }

end

namespace Parser

variable {f : Location → Location} {n : Nat} {stop : Location}

/-! ## Rules that follow a move -/

section

variable {α β : Type} {move : α → α} {last : β → β} {x y : Rule α} {g k : α → Rule β}

/-- On fewer than `n` tokens with moved places, the second step does what the first does without
the move.  `move` moves the places in what is read. -/
def Follows (f : Location → Location) (n : Nat) (move : α → α) (x y : Rule α) : Prop :=
  ∀ ts, ts.length < n →
    (∃ e, x ts = .error e ∧ y (ts.map (·.relocate f)) = .error (e.relocate f)) ∨
    ∃ a rest, rest.length ≤ ts.length ∧ x ts = .ok (a, rest) ∧
      y (ts.map (·.relocate f)) = .ok (move a, rest.map (·.relocate f))

theorem follows_zero : Follows f 0 move x y := fun _ h => absurd h (Nat.not_lt_zero _)

theorem follows_pure {a b : α} (h : move a = b) : Follows f n move (pure a) (pure b) := by
  subst h
  exact fun ts _ => Or.inr ⟨a, ts, Nat.le_refl _, rfl, rfl⟩

theorem follows_throw (e : SyntaxError) : Follows f n move (throw e) (throw (e.relocate f)) :=
  fun _ _ => Or.inl ⟨e, rfl, rfl⟩

theorem Follows.bind (h : Follows f n move x y) (hnext : ∀ a, Follows f n last (g a) (k (move a))) :
    Follows f n last (x >>= g) (y >>= k) := by
  intro ts hlength
  rcases h ts hlength with ⟨e, hx, hy⟩ | ⟨a, rest, hrest, hx, hy⟩
  · exact Or.inl ⟨e, run_bind_error hx, run_bind_error hy⟩
  · rw [run_bind hx, run_bind hy]
    rcases hnext a rest (by omega) with hfail | ⟨b, more, hmore, hread⟩
    · exact Or.inl hfail
    · exact Or.inr ⟨b, more, by omega, hread⟩

/-- What follows a move after one token follows it from that token on. -/
theorem Follows.after {x' y' : Rule α} {t : Token} {rest : List Token} (h : Follows f n move x' y')
    (hlength : (t :: rest).length < n) (hx : x (t :: rest) = x' rest)
    (hy : y ((t :: rest).map (·.relocate f)) = y' (rest.map (·.relocate f))) :
    (∃ e, x (t :: rest) = .error e ∧ y ((t :: rest).map (·.relocate f)) = .error (e.relocate f)) ∨
    ∃ a left, left.length ≤ (t :: rest).length ∧ x (t :: rest) = .ok (a, left) ∧
      y ((t :: rest).map (·.relocate f)) = .ok (move a, left.map (·.relocate f)) := by
  rw [hx, hy]
  rcases h rest (Nat.lt_of_succ_lt hlength) with hfail | ⟨a, left, hleft, hread⟩
  · exact Or.inl hfail
  · exact Or.inr ⟨a, left, Nat.le_succ_of_le hleft, hread⟩

/-- After a step that reads something, fewer tokens are left. -/
theorem Follows.bind_shrinks (h : Follows f (n + 1) move x y) (hshrinks : Shrinks x)
    (hnext : ∀ a, Follows f n last (g a) (k (move a))) :
    Follows f (n + 1) last (x >>= g) (y >>= k) := by
  intro ts hlength
  rcases h ts hlength with ⟨e, hx, hy⟩ | ⟨a, rest, hrest, hx, hy⟩
  · exact Or.inl ⟨e, run_bind_error hx, run_bind_error hy⟩
  · have hshorter := hshrinks ts a rest hx
    rw [run_bind hx, run_bind hy]
    rcases hnext a rest (by omega) with hfail | ⟨b, more, hmore, hread⟩
    · exact Or.inl hfail
    · exact Or.inr ⟨b, more, by omega, hread⟩

end

/-! ## Single tokens -/

theorem here_relocate (ts : List Token) :
    here (f stop) (ts.map (·.relocate f)) = f (here stop ts) := by
  cases ts <;> rfl

theorem follows_ident (wanted : Wanted) : Follows f n (Located.relocate f)
    (run (ident stop wanted)) (run (ident (f stop) wanted)) := by
  intro ts _
  cases ts with
  | nil => exact Or.inl ⟨_, rfl, rfl⟩
  | cons t rest =>
    obtain ⟨lexeme, place⟩ := t
    cases lexeme with
    | ident name => exact Or.inr ⟨⟨name, place⟩, rest, Nat.le_succ _, rfl, rfl⟩
    | literal value => exact Or.inl ⟨_, rfl, rfl⟩
    | punct mark => exact Or.inl ⟨_, rfl, rfl⟩

theorem follows_literal (wanted : Wanted) : Follows f n (Located.relocate f)
    (run (literal stop wanted)) (run (literal (f stop) wanted)) := by
  intro ts _
  cases ts with
  | nil => exact Or.inl ⟨_, rfl, rfl⟩
  | cons t rest =>
    obtain ⟨lexeme, place⟩ := t
    cases lexeme with
    | ident name => exact Or.inl ⟨_, rfl, rfl⟩
    | literal value => exact Or.inr ⟨⟨value, place⟩, rest, Nat.le_succ _, rfl, rfl⟩
    | punct mark => exact Or.inl ⟨_, rfl, rfl⟩

theorem follows_punct (mark : Punct) (wanted : Wanted) : Follows f n f
    (run (punct stop mark wanted)) (run (punct (f stop) mark wanted)) := by
  intro ts _
  cases ts with
  | nil => exact Or.inl ⟨_, rfl, rfl⟩
  | cons t rest =>
    by_cases h : t.lexeme = .punct mark
    · obtain ⟨lexeme, place⟩ := t
      cases h
      exact Or.inr ⟨place, rest, Nat.le_succ _, run_punct_mark mark wanted place rest,
        run_punct_mark mark wanted (f place) _⟩
    · exact Or.inl ⟨_, run_punct_of_ne h, run_punct_of_ne h⟩

/-- A mark is next after the move exactly when it was before. -/
theorem ne_mark_relocate {mark : Punct} {ts : List Token}
    (h : ∀ place rest, ts ≠ ⟨.punct mark, place⟩ :: rest) (place : Location) (rest : List Token) :
    ts.map (·.relocate f) ≠ ⟨.punct mark, place⟩ :: rest := by
  intro heq
  obtain ⟨t, more, rfl, ht, -⟩ := List.map_eq_cons_iff.mp heq
  refine h t.location more ?_
  obtain ⟨lexeme, location⟩ := t
  rw [show lexeme = .punct mark from congrArg Token.lexeme ht]

theorem follows_accept (mark : Punct) :
    Follows f n (Option.map f) (accept mark) (accept mark) := by
  intro ts _
  rcases mark_cases mark ts with ⟨place, rest, rfl⟩ | hne
  · exact Or.inr ⟨some place, rest, Nat.le_succ _, accept_mark mark place rest,
      accept_mark mark (f place) _⟩
  · exact Or.inr ⟨none, ts, Nat.le_refl _, accept_of_ne hne, accept_of_ne (ne_mark_relocate hne)⟩

theorem follows_ahead (mark : Punct) : Follows f n (Option.map f) (ahead mark) (ahead mark) := by
  intro ts _
  rcases mark_cases mark ts with ⟨place, rest, rfl⟩ | hne
  · exact Or.inr ⟨some place, _, Nat.le_refl _, ahead_mark mark place rest,
      ahead_mark mark (f place) _⟩
  · exact Or.inr ⟨none, ts, Nat.le_refl _, ahead_of_ne hne, ahead_of_ne (ne_mark_relocate hne)⟩

/-! ## Attributes -/

theorem follows_attributeItem : Follows f n (AttributeItem.relocate f)
    (run (attributeItem stop)) (run (attributeItem (f stop))) := by
  intro ts hlength
  cases ts with
  | nil => exact Or.inl ⟨_, rfl, rfl⟩
  | cons t rest =>
    obtain ⟨lexeme, place⟩ := t
    cases lexeme with
    | literal value => exact Or.inr ⟨⟨.literal value, place⟩, rest, Nat.le_succ _, rfl, rfl⟩
    | punct mark => exact Or.inl ⟨_, rfl, rfl⟩
    | ident key =>
      refine Follows.after ?_ hlength (run_attributeItem_ident key place rest)
        (run_attributeItem_ident key (f place) _)
      exact (follows_accept .equals).bind fun
        | some _ => (follows_literal (.attributeValue key)).bind fun value => follows_pure rfl
        | none => follows_pure rfl

theorem follows_attributeItems : Follows f n (List.map (AttributeItem.relocate f))
    (run (attributeItems stop)) (run (attributeItems (f stop))) := by
  induction n with
  | zero => exact follows_zero
  | succ n ih =>
    rw [@run_attributeItems stop, @run_attributeItems (f stop)]
    refine (follows_accept .rightBracket).bind fun
      | some _ => follows_pure rfl
      | none => ?_
    refine follows_attributeItem.bind_shrinks (shrinks_run _) fun item => ?_
    exact (follows_accept .comma).bind fun
      | some _ => ih.bind fun others => follows_pure rfl
      | none => (follows_punct .rightBracket .attributeClosing).bind fun _ => follows_pure rfl

theorem follows_bracketed : Follows f n (Attribute.relocate f) (run (bracketed stop))
    (run (bracketed (f stop))) := by
  rw [@run_bracketed stop, @run_bracketed (f stop)]
  refine (follows_punct .leftBracket .attributeItem).bind fun opening => ?_
  refine follows_attributeItems.bind fun items => ?_
  cases items with
  | nil => exact follows_throw _
  | cons item items => exact follows_pure rfl

theorem follows_attributes : Follows f n (List.map (Attribute.relocate f))
    (runOptional (attributes stop)) (runOptional (attributes (f stop))) := by
  induction n with
  | zero => exact follows_zero
  | succ n ih =>
    rw [@run_attributes stop, @run_attributes (f stop)]
    exact (follows_ahead .leftBracket).bind fun
      | some _ => follows_bracketed.bind_shrinks (shrinks_run _) fun first =>
          ih.bind fun others => follows_pure rfl
      | none => follows_pure rfl

/-! ## Type expressions -/

theorem relocate_typeExpr (name : String) (optional : Bool) (args : List TypeExpr)
    (location : Location) : TypeExpr.relocate f ⟨name, optional, args, location⟩ =
      ⟨name, optional, args.map (·.relocate f), f location⟩ := by
  rw [TypeExpr.relocate]

/-- The rules for types, which call each other on shorter lists. -/
theorem follows_types : Follows f n (TypeExpr.relocate f) (run (typeExpr stop))
      (run (typeExpr (f stop))) ∧
    (∀ start optional, Follows f n (TypeExpr.relocate f) (run (namedType stop start optional))
      (run (namedType (f stop) (f start) optional))) ∧
    Follows f n (List.map (TypeExpr.relocate f)) (run (typeArgs stop))
      (run (typeArgs (f stop))) := by
  induction n with
  | zero => exact ⟨follows_zero, fun _ _ => follows_zero, follows_zero⟩
  | succ n ih =>
    obtain ⟨-, -, hargs⟩ := ih
    have hnamed : ∀ start optional, Follows f (n + 1) (TypeExpr.relocate f)
        (run (namedType stop start optional)) (run (namedType (f stop) (f start) optional)) := by
      intro start optional
      rw [run_namedType, run_namedType]
      refine (follows_ident .typeName).bind_shrinks (shrinks_run _) fun name => ?_
      refine (follows_accept .leftAngle).bind fun
        | none => follows_pure (relocate_typeExpr _ _ _ _)
        | some _ => ?_
      exact (follows_ahead .rightAngle).bind fun
        | some place => follows_throw _
        | none => hargs.bind fun args => follows_pure (relocate_typeExpr _ _ _ _)
    have htype : Follows f (n + 1) (TypeExpr.relocate f) (run (typeExpr stop))
        (run (typeExpr (f stop))) := by
      intro ts hlength
      rw [run_typeExpr, run_typeExpr, here_relocate]
      exact ((follows_accept .question).bind fun
        | some place => hnamed place true
        | none => hnamed (here stop ts) false) ts hlength
    refine ⟨htype, hnamed, ?_⟩
    rw [@run_typeArgs stop, @run_typeArgs (f stop)]
    refine htype.bind_shrinks (shrinks_run _) fun first => ?_
    exact (follows_accept .comma).bind fun
      | some _ => hargs.bind fun others => follows_pure rfl
      | none => (follows_punct .rightAngle .argumentsClosing).bind fun _ => follows_pure rfl

theorem follows_typeExpr : Follows f n (TypeExpr.relocate f) (run (typeExpr stop))
    (run (typeExpr (f stop))) :=
  follows_types.1

/-! ## Blocks -/

theorem follows_separator (separator : Separator) :
    Follows f n id separator.rule separator.rule := by
  cases separator with
  | nothing => exact follows_pure rfl
  | optionalComma => exact (follows_accept .comma).bind fun _ => follows_pure rfl

theorem follows_members {α : Type} {move : α → α}
    {rule rule' : (ts : List Token) → Except SyntaxError (Reading ts α)} {separator : Separator}
    {unclosed : SyntaxError} (hrule : ∀ n, Follows f n move (run rule) (run rule')) :
    Follows f n (List.map move) (run (members rule separator unclosed))
      (run (members rule' separator (unclosed.relocate f))) := by
  induction n with
  | zero => exact follows_zero
  | succ n ih =>
    intro ts hlength
    cases ts with
    | nil => exact Or.inl ⟨unclosed, run_members_nil, run_members_nil⟩
    | cons t more =>
      rw [run_members_cons, List.map_cons, run_members_cons]
      refine (?_ : Follows f (n + 1) (List.map move) _ _) (t :: more) hlength
      exact (follows_accept .rightBrace).bind fun
        | some _ => follows_pure rfl
        | none => (hrule (n + 1)).bind_shrinks (shrinks_run _) fun first =>
            (follows_separator separator).bind fun _ => ih.bind fun others => follows_pure rfl

theorem follows_field : Follows f n (Field.relocate f) (run (field stop))
    (run (field (f stop))) := by
  rw [@run_field stop, @run_field (f stop)]
  exact follows_attributes.bind fun attrs => (follows_ident .fieldName).bind fun name =>
    (follows_punct .colon (.colonAfterField name.cause)).bind fun _ =>
      follows_typeExpr.bind fun type => follows_pure rfl

theorem follows_fields (owner : String) : Follows f n (List.map (Field.relocate f))
    (run (fields stop owner)) (run (fields (f stop) owner)) := by
  rw [run_fields, run_fields]
  exact (follows_punct .leftBrace (.body owner)).bind fun opening =>
    follows_members fun _ => follows_field

theorem follows_payload (name : String) : Follows f n (Option.map (TypeExpr.relocate f))
    (runOptional (payload stop name)) (runOptional (payload (f stop) name)) := by
  rw [run_payload, run_payload]
  exact (follows_accept .leftParen).bind fun
    | some _ => follows_typeExpr.bind fun type =>
        (follows_punct .rightParen .payloadClosing).bind fun _ => follows_pure rfl
    | none => (follows_ahead .leftBrace).bind fun
      | some place => follows_throw _
      | none => follows_pure rfl

theorem follows_variant : Follows f n (Variant.relocate f) (run (variant stop))
    (run (variant (f stop))) := by
  rw [@run_variant stop, @run_variant (f stop)]
  exact follows_attributes.bind fun attrs => (follows_ident .variantName).bind fun name =>
    (follows_payload name.cause).bind fun type => follows_pure rfl

/-! ## Items -/

theorem follows_roleTag : Follows f n id (runOptional (roleTag stop))
    (runOptional (roleTag (f stop))) := by
  rw [@run_roleTag stop, @run_roleTag (f stop)]
  refine (follows_accept .leftAngle).bind fun
    | none => follows_pure rfl
    | some _ => ?_
  refine (follows_ident .role).bind fun word => ?_
  rw [Located.cause_relocate]
  split
  · exact follows_throw _
  · exact (follows_punct .rightAngle .roleClosing).bind fun _ => follows_pure rfl

theorem follows_itemBody (attrs : List Attribute) (head : Located String) :
    Follows f n (Item.relocate f) (run (itemBody stop attrs head))
      (run (itemBody (f stop) (attrs.map (·.relocate f)) (head.relocate f))) := by
  rw [run_itemBody, run_itemBody, Located.cause_relocate, Located.location_relocate]
  split
  · rw [run_roleStruct, run_roleStruct]
    exact (follows_accept .colon).bind fun _ =>
      (follows_fields _).bind fun inside => follows_pure rfl
  · split
    · rw [run_namedStruct, run_namedStruct]
      exact (follows_ident .structName).bind fun name => follows_roleTag.bind fun role =>
        (follows_fields name.cause).bind fun inside => follows_pure rfl
    · split
      · rw [run_enumeration, run_enumeration]
        exact (follows_ident .enumName).bind fun name =>
          (follows_punct .leftBrace (.enumBody name.cause)).bind fun opening =>
            (follows_members fun _ => follows_variant).bind fun inside => follows_pure rfl
      · exact follows_throw _

theorem follows_item : Follows f n (Item.relocate f) (run (item stop)) (run (item (f stop))) := by
  rw [@run_item stop, @run_item (f stop)]
  exact follows_attributes.bind fun attrs => (follows_ident .itemHead).bind fun head =>
    follows_itemBody attrs head

/-! ## Methods and endpoints -/

theorem follows_verb : Follows f n (Located.relocate f) (run (verb stop))
    (run (verb (f stop))) := by
  rw [@run_verb stop, @run_verb (f stop)]
  refine (follows_ident .verb).bind fun word => ?_
  rw [Located.cause_relocate]
  split
  · exact follows_throw _
  · exact follows_pure rfl

theorem follows_path : Follows f n (Located.relocate f) (run (path stop))
    (run (path (f stop))) := by
  rw [@run_path stop, @run_path (f stop)]
  refine (follows_literal .path).bind fun raw => ?_
  rw [Located.cause_relocate]
  split
  · exact follows_throw _
  · exact follows_pure rfl

theorem follows_method : Follows f n (Method.relocate f) (run (method stop))
    (run (method (f stop))) := by
  rw [@run_method stop, @run_method (f stop)]
  exact follows_verb.bind fun v => follows_path.bind fun p =>
    (follows_punct .arrow .arrow).bind fun _ =>
      (follows_punct .leftBrace .methodBody).bind fun opening =>
        (follows_members fun _ => follows_item).bind fun items => follows_pure rfl

theorem follows_visibility : Follows f n id (runOptional fun ts => .ok (visibility ts))
    (runOptional fun ts => .ok (visibility ts)) := by
  intro ts _
  rcases ts with _ | ⟨⟨lexeme, place⟩, rest⟩
  · exact Or.inr ⟨false, [], Nat.le_refl _, rfl, rfl⟩
  cases lexeme with
  | literal value => exact Or.inr ⟨false, _, Nat.le_refl _, rfl, rfl⟩
  | punct mark => exact Or.inr ⟨false, _, Nat.le_refl _, rfl, rfl⟩
  | ident word =>
    rcases rest with _ | ⟨⟨lexeme', place'⟩, rest⟩
    · exact Or.inr ⟨false, _, Nat.le_refl _, rfl, rfl⟩
    cases lexeme' with
    | literal value => exact Or.inr ⟨false, _, Nat.le_refl _, rfl, rfl⟩
    | punct mark => exact Or.inr ⟨false, _, Nat.le_refl _, rfl, rfl⟩
    | ident name =>
      by_cases hpub : word = "pub"
      · subst hpub
        exact Or.inr ⟨true, ⟨.ident name, place'⟩ :: rest, Nat.le_succ _, rfl, rfl⟩
      · have hread : ∀ place place' rest,
            runOptional (fun ts => .ok (visibility ts))
              (⟨.ident word, place⟩ :: ⟨.ident name, place'⟩ :: rest) =
              .ok (false, ⟨.ident word, place⟩ :: ⟨.ident name, place'⟩ :: rest) := by
          intro place place' rest
          rw [runOptional, visibility, if_neg hpub]
          rfl
        exact Or.inr ⟨false, _, Nat.le_refl _, hread _ _ _, hread _ _ _⟩

theorem follows_endpoint : Follows f n (Endpoint.relocate f) (run (endpoint stop))
    (run (endpoint (f stop))) := by
  rw [@run_endpoint stop, @run_endpoint (f stop)]
  refine (follows_punct .leftBracket .endpointOpening).bind fun opening => ?_
  refine follows_visibility.bind fun isPublic => ?_
  refine (follows_ident .endpointName).bind fun name => ?_
  refine (follows_punct .colon (.colonAfterEndpoint name.cause)).bind fun _ => ?_
  refine (follows_punct .leftBrace .endpointBody).bind fun _ => ?_
  refine (follows_members fun _ => follows_method).bind fun methods => ?_
  exact (follows_punct .rightBracket (.endpointClosing name.cause)).bind fun _ => follows_pure rfl

/-! ## Blocks one after another -/

theorem skip_relocate (mark : Punct) (ts : List Token) :
    skip mark (ts.map (·.relocate f)) = (skip mark ts).map (·.relocate f) := by
  rcases mark_cases mark ts with ⟨place, rest, rfl⟩ | hne
  · rw [skip_mark]
    exact skip_mark mark (f place) _
  · rw [skip_of_ne hne, skip_of_ne (ne_mark_relocate hne)]

theorem afterBlock_relocate (depth : Nat) (ts : List Token) :
    afterBlock depth (ts.map (·.relocate f)) = (afterBlock depth ts).map (·.relocate f) := by
  induction ts generalizing depth with
  | nil => rfl
  | cons t rest ih =>
    simp only [List.map_cons, afterBlock, Token.lexeme_relocate, ih]
    split <;> split <;> first | rfl | split <;> rfl

theorem recover_relocate (ts : List Token) :
    recover (ts.map (·.relocate f)) = (recover ts).map (·.relocate f) := by
  cases ts with
  | nil => rfl
  | cons t rest => exact afterBlock_relocate _ rest

theorem firstBlock_relocate (ts : List Token) :
    firstBlock (f stop) (ts.map (·.relocate f)) =
      (firstBlock stop ts).map (relocateResult f (Endpoint.relocate f)) := by
  induction hn : ts.length using Nat.strongRecOn generalizing ts with
  | ind n ih =>
    cases ts with
    | nil => rfl
    | cons t rest =>
      have hafter : ∀ more : List Token, more.length < n →
          blocks (f stop) true (more.map (·.relocate f)) =
            (blocks stop true more).map (relocateResult f (Endpoint.relocate f)) := by
        intro more hmore
        rw [blocks_after, blocks_after, skip_relocate]
        exact ih _ (Nat.lt_of_le_of_lt (length_skip_le .comma more) hmore) _ rfl
      rcases @follows_endpoint f _ stop (t :: rest) (Nat.lt_succ_self _) with
        ⟨e, hx, hy⟩ | ⟨a, more, -, hx, hy⟩
      · have hrecover := @recover_relocate f (t :: rest)
        rw [List.map_cons] at hy hrecover ⊢
        rw [firstBlock, hy, firstBlock, hx]
        simp only [hrecover, hafter _ (hn ▸ length_recover_lt t rest)]
        rfl
      · have hshorter := shrinks_run _ _ _ _ hx
        rw [List.map_cons] at hy ⊢
        rw [firstBlock, hy, firstBlock, hx]
        simp only [hafter more (hn ▸ hshorter)]
        rfl

theorem blocks_relocate (commaAllowed : Bool) (ts : List Token) :
    blocks (f stop) commaAllowed (ts.map (·.relocate f)) =
      (blocks stop commaAllowed ts).map (relocateResult f (Endpoint.relocate f)) := by
  rw [blocks_eq_firstBlock, blocks_eq_firstBlock, ← firstBlock_relocate]
  cases commaAllowed with
  | false => rfl
  | true => rw [if_pos rfl, if_pos rfl, skip_relocate]

end Parser

variable {f : Location → Location}

theorem okValue?_relocateResult (x : Except SyntaxError Endpoint) :
    okValue? (relocateResult f (Endpoint.relocate f) x) =
      (okValue? x).map (Endpoint.relocate f) := by
  cases x <;> rfl

theorem errorValue?_relocateResult (x : Except SyntaxError Endpoint) :
    errorValue? (relocateResult f (Endpoint.relocate f) x) =
      (errorValue? x).map (Located.relocate f) := by
  cases x <;> rfl

/-- The tree of tokens with moved places is the tree of the tokens, with its places moved. -/
theorem ofTokens_relocate (unit : String) (list : TokenList) :
    ofTokens unit (list.relocate f) = (ofTokens unit list).relocate f := by
  have hblocks : Parser.blocks (list.relocate f).stop false (list.relocate f).tokens =
      (Parser.blocks list.stop false list.tokens).map (relocateResult f (Endpoint.relocate f)) :=
    Parser.blocks_relocate false list.tokens
  simp only [ofTokens, hblocks, Parsed.relocate, Source.relocate, List.filterMap_map,
    List.map_filterMap]
  congr 1
  · congr 1
    exact List.filterMap_congr fun x _ => okValue?_relocateResult x
  · exact List.filterMap_congr fun x _ => errorValue?_relocateResult x

end Tree
end EndpointDsl
