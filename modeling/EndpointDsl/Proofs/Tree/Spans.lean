import EndpointDsl.Proofs.Lists
import EndpointDsl.Proofs.Tree.Rounds

/-!
The tokens that each part of a tree was read from.

A part holds no place but those of the tokens it was read from.  Where the rules look one token
ahead they copy its place only if they then read it.  The members of a block are read from runs of
tokens that stand in the block one after another, and so are the items of a whole endpoint.
-/

namespace EndpointDsl

/-! ## Runs in a list -/

/-- Runs that stand in a list one after another, perhaps with something between them. -/
inductive Spread {α : Type} : List (List α) → List α → Prop
  | none (gap : List α) : Spread [] gap
  | next (gap run : List α) {runs : List (List α)} {rest : List α} (h : Spread runs rest) :
      Spread (run :: runs) (gap ++ (run ++ rest))

section

variable {α β : Type} {runs runs' : List (List α)} {as bs : List α}

theorem Spread.behind (h : Spread runs as) (gap : List α) : Spread runs (gap ++ as) := by
  cases h with
  | none gap' => exact .none _
  | next gap' run h =>
    rw [← List.append_assoc]
    exact .next _ run h

theorem Spread.append (h : Spread runs as) (h' : Spread runs' bs) :
    Spread (runs ++ runs') (as ++ bs) := by
  induction h with
  | none gap => exact h'.behind gap
  | next gap run _ ih =>
    rw [List.append_assoc, List.append_assoc]
    exact .next gap run ih

theorem Spread.before (h : Spread runs as) (gap : List α) : Spread runs (as ++ gap) := by
  simpa using h.append (.none gap)

/-- Runs inside of runs. -/
theorem Spread.flatMap {β' : Type} {r : β' → List α → Prop} {parts : β → List β'} {bs : List β}
    (h : List.Forall₂ (fun b run => ∃ inner, List.Forall₂ r (parts b) inner ∧ Spread inner run) bs
      runs) (hruns : Spread runs as) :
    ∃ inner, List.Forall₂ r (bs.flatMap parts) inner ∧ Spread inner as := by
  induction hruns generalizing bs with
  | none gap =>
    cases h
    exact ⟨[], .nil, .none gap⟩
  | next gap run _ ih =>
    cases h with
    | cons hb h =>
      obtain ⟨inner, hinner, hspread⟩ := hb
      obtain ⟨others, hothers, hspread'⟩ := ih h
      exact ⟨inner ++ others, List.rel_append hinner hothers, (hspread.append hspread').behind gap⟩

end

namespace Tree
namespace Parser

variable {α β : Type} {n : Nat} {stop : Location}

/-! ## Places that are those of tokens -/

/-- The map leaves the places of the tokens alone.  What every such map leaves alone has no places
but theirs. -/
def Fixes (f : Location → Location) (used : List Token) : Prop :=
  ∀ t ∈ used, f t.location = t.location

theorem fixes_append {f : Location → Location} {used used' : List Token} :
    Fixes f (used ++ used') ↔ Fixes f used ∧ Fixes f used' :=
  List.forall_mem_append

theorem takes_ident (wanted : Wanted) : Takes n (run (ident stop wanted)) fun name used =>
    used ≠ [] ∧ ∀ f, Fixes f used → f name.location = name.location := by
  rintro (_ | ⟨⟨lexeme, place⟩, more⟩) a rest - h
  · cases h
  · cases lexeme with
    | ident name =>
      cases h
      exact ⟨[⟨.ident name, place⟩], rfl, List.cons_ne_nil _ _, fun f hf => hf _ List.mem_cons_self⟩
    | literal value => cases h
    | punct mark => cases h

theorem takes_punct (mark : Punct) (wanted : Wanted) :
    Takes n (run (punct stop mark wanted)) fun place used =>
      ∀ f, Fixes f used → f place = place := by
  rintro (_ | ⟨⟨lexeme, place⟩, more⟩) a rest - h
  · cases h
  · by_cases heq : lexeme = .punct mark
    · subst heq
      rw [run_punct_mark] at h
      cases h
      exact ⟨[⟨.punct mark, place⟩], rfl, fun f hf => hf _ List.mem_cons_self⟩
    · rw [run_punct_of_ne heq] at h
      cases h

theorem takes_accept (mark : Punct) : Takes n (accept mark) fun o used =>
    ∀ place ∈ o, ∀ f, Fixes f used → f place = place := by
  rintro ts a rest - h
  rcases mark_cases mark ts with ⟨place, more, rfl⟩ | hne
  · rw [accept_mark] at h
    cases h
    refine ⟨[⟨.punct mark, place⟩], rfl, fun place' hplace f hf => ?_⟩
    cases hplace
    exact hf _ List.mem_cons_self
  · rw [accept_of_ne hne] at h
    cases h
    exact ⟨[], rfl, fun place hplace => by cases hplace⟩

/-- What a rule that copies no place takes. -/
theorem Reads.takes {x : Rule α} {p : α → List Lexeme → Prop} (h : Reads n x p) :
    Takes n x fun _ _ => True :=
  Takes.mono h fun _ _ _ => trivial

/-! ## Attributes -/

theorem takes_attributeItem : Takes n (run (attributeItem stop)) fun i used =>
    ∀ f, Fixes f used → i.relocate f = i := by
  rintro (_ | ⟨⟨lexeme, place⟩, more⟩) a rest hlength h
  · cases h
  · have hplaced : ∀ (entry : AttributeEntry) (used : List Token) (f : Location → Location),
        Fixes f (⟨lexeme, place⟩ :: used) →
          AttributeItem.relocate f ⟨entry, place⟩ = ⟨entry, place⟩ := by
      intro entry used f hf
      rw [AttributeItem.relocate, hf _ List.mem_cons_self]
    cases lexeme with
    | punct mark => cases h
    | literal value =>
      cases h
      exact ⟨[⟨.literal value, place⟩], rfl, hplaced _ _⟩
    | ident key =>
      rw [run_attributeItem_ident] at h
      obtain ⟨used, rfl, hlocation⟩ := Takes.bind (n := more.length)
        (s := fun (i : AttributeItem) _ => i.location = place) (takes_accept .equals) (fun
          | some _, _, _ => (reads_literal (.attributeValue key)).takes.bind_pure fun _ _ _ => rfl
          | none, _, _ => takes_pure (by rfl)) more a rest (Nat.le_refl _) h
      obtain ⟨entry, location⟩ := a
      cases hlocation
      exact ⟨_ :: used, rfl, hplaced entry used⟩

theorem takes_attributeItems : Takes n (run (attributeItems stop)) fun items used =>
    ∀ f, Fixes f used → items.map (·.relocate f) = items := by
  induction n using Nat.strong_induction_on with
  | h n ih =>
    rw [run_attributeItems]
    refine (takes_accept .rightBracket).bind fun
      | some _, _, _ => takes_pure fun _ _ => rfl
      | none, _, _ => ?_
    refine takes_attributeItem.bind_shrinks (shrinks_run _) fun k hk item u hitem => ?_
    refine (takes_accept .comma).bind fun
      | some _, _, _ => (ih k hk).bind_pure fun others w hothers f hf => ?_
      | none, _, _ => (takes_punct .rightBracket .attributeClosing).bind_pure fun _ w _ f hf => ?_
    · simp only [fixes_append] at hf
      rw [List.map_cons, hitem f hf.2.1, hothers f hf.2.2.2]
    · simp only [fixes_append] at hf
      rw [List.map_cons, hitem f hf.2.1, List.map_nil]

theorem takes_bracketed : Takes n (run (bracketed stop)) fun a used =>
    ∀ f, Fixes f used → a.relocate f = a := by
  rw [run_bracketed]
  refine (takes_punct .leftBracket .attributeItem).bind fun opening u hopening => ?_
  refine takes_attributeItems.bind fun items v hitems => ?_
  split
  · exact takes_throw _
  · refine takes_pure fun f hf => ?_
    simp only [fixes_append] at hf
    simp only [Attribute.relocate, hopening f hf.1, hitems f hf.2.1]

theorem takes_attributes : Takes n (runOptional (attributes stop)) fun attrs used =>
    ∀ f, Fixes f used → attrs.map (·.relocate f) = attrs := by
  induction n using Nat.strong_induction_on with
  | h n ih =>
    rw [run_attributes]
    refine (reads_ahead .leftBracket).takes.bind fun
      | some _, _, _ => ?_
      | none, _, _ => takes_pure fun _ _ => rfl
    refine takes_bracketed.bind_shrinks (shrinks_run _) fun k hk first u hfirst => ?_
    refine (ih k hk).bind_pure fun others v hothers f hf => ?_
    simp only [fixes_append] at hf
    rw [List.map_cons, hfirst f hf.2.1, hothers f hf.2.2]

/-! ## Type expressions -/

/-- The rules for types.  A type without a mark starts at the place of its name, which is the next
token when the place is taken. -/
theorem takes_types :
    Takes n (run (typeExpr stop)) (fun t used => ∀ f, Fixes f used → t.relocate f = t) ∧
    (∀ start isOptional, Takes n (run (namedType stop start isOptional)) fun t used =>
      used ≠ [] ∧ ∀ f, Fixes f used → f start = start → t.relocate f = t) ∧
    Takes n (run (typeArgs stop)) fun args used =>
      ∀ f, Fixes f used → args.map (·.relocate f) = args := by
  induction n using Nat.strong_induction_on with
  | h n ih =>
    have hnamed : ∀ start isOptional, Takes n (run (namedType stop start isOptional)) fun t used =>
        used ≠ [] ∧ ∀ f, Fixes f used → f start = start → t.relocate f = t := by
      intro start isOptional
      rw [run_namedType]
      refine (takes_ident .typeName).bind_shrinks (shrinks_run _) fun k hk name u hname => ?_
      have hne : ∀ v, u ++ v ≠ [] := fun v h => hname.1 (List.append_eq_nil_iff.mp h).1
      refine (takes_accept .leftAngle).bind fun
        | none, _, _ => takes_pure ⟨hne _, fun f _ hstart => ?_⟩
        | some _, _, _ => ?_
      · rw [relocate_typeExpr, hstart, List.map_nil]
      refine (reads_ahead .rightAngle).takes.bind fun
        | some _, _, _ => takes_throw _
        | none, _, _ => ?_
      refine (ih k hk).2.2.bind_pure fun args v hargs => ⟨hne _, fun f hf hstart => ?_⟩
      simp only [fixes_append] at hf
      rw [relocate_typeExpr, hstart, hargs f hf.2.2.2]
    have htype : Takes n (run (typeExpr stop)) fun t used =>
        ∀ f, Fixes f used → t.relocate f = t := by
      intro ts t rest hlength h
      rw [run_typeExpr] at h
      rcases mark_cases .question ts with ⟨place, more, rfl⟩ | hne
      · rw [run_bind (accept_mark .question place more)] at h
        obtain ⟨used, rfl, -, hplaced⟩ := hnamed place true _ _ _ (Nat.le_of_succ_le hlength) h
        refine ⟨⟨.punct .question, place⟩ :: used, rfl, fun f hf => hplaced f ?_ ?_⟩
        · exact fun t ht => hf t (List.mem_cons_of_mem _ ht)
        · exact hf _ List.mem_cons_self
      · rw [run_bind (accept_of_ne hne)] at h
        obtain ⟨used, rfl, hused, hplaced⟩ := hnamed _ false _ _ _ hlength h
        refine ⟨used, rfl, fun f hf => hplaced f hf ?_⟩
        cases used with
        | nil => exact absurd rfl hused
        | cons t used => exact hf t List.mem_cons_self
    refine ⟨htype, hnamed, ?_⟩
    rw [run_typeArgs]
    refine htype.bind_shrinks (shrinks_run _) fun k hk first u hfirst => ?_
    refine (takes_accept .comma).bind fun
      | some _, _, _ => (ih k hk).2.2.bind_pure fun others w hothers f hf => ?_
      | none, _, _ => (takes_punct .rightAngle .argumentsClosing).bind_pure fun _ w _ f hf => ?_
    · simp only [fixes_append] at hf
      rw [List.map_cons, hfirst f hf.1, hothers f hf.2.2]
    · simp only [fixes_append] at hf
      rw [List.map_cons, hfirst f hf.1, List.map_nil]

theorem takes_typeExpr : Takes n (run (typeExpr stop)) fun t used =>
    ∀ f, Fixes f used → t.relocate f = t := takes_types.1

/-! ## Blocks -/

/-- The members of a block are taken from runs of its tokens. -/
theorem takes_members {rule : (ts : List Token) → Except SyntaxError (Reading ts α)}
    {separator : Separator} {unclosed : SyntaxError} {r : α → List Token → Prop}
    (hrule : ∀ k, Takes k (run rule) r) :
    Takes n (run (members rule separator unclosed)) fun as used =>
      ∃ spans, List.Forall₂ r as spans ∧ Spread spans used := by
  induction n using Nat.strong_induction_on with
  | h n ih =>
    rintro (_ | ⟨t, more⟩) as rest hlength h
    · rw [run_members_nil] at h
      cases h
    · rw [run_members_cons] at h
      refine Takes.bind (s := fun as used => ∃ spans, List.Forall₂ r as spans ∧ Spread spans used)
        (takes_accept .rightBrace) (fun o u _ => ?_) _ as rest hlength h
      cases o with
      | some place => exact takes_pure ⟨[], .nil, .none _⟩
      | none =>
        refine (hrule n).bind_shrinks (shrinks_run _) fun k hk first v hfirst => ?_
        refine (reads_separator separator).takes.bind fun _ w _ => ?_
        refine (ih k hk).bind_pure fun others x hothers => ?_
        obtain ⟨spans, hspans, hspread⟩ := hothers
        exact ⟨v :: spans, .cons hfirst hspans, .next u v (hspread.behind w)⟩

/-- Members with no places but those of their runs have none but those of all tokens. -/
theorem relocate_of_spread (move : (Location → Location) → α → α) {as : List α}
    {spans : List (List Token)} {used : List Token}
    (h : List.Forall₂ (fun a span => ∀ f, Fixes f span → move f a = a) as spans)
    (hspread : Spread spans used) {f : Location → Location} (hf : Fixes f used) :
    as.map (move f) = as := by
  induction hspread generalizing as with
  | none gap =>
    cases h
    rfl
  | next gap run _ ih =>
    simp only [fixes_append] at hf
    cases h with
    | cons ha h => rw [List.map_cons, ha f hf.2.1, ih h hf.2.2]

theorem takes_field : Takes n (run (field stop)) fun d used =>
    ∀ f, Fixes f used → d.relocate f = d := by
  rw [run_field]
  refine takes_attributes.bind fun attrs u hattrs => ?_
  refine (takes_ident .fieldName).bind fun name v hname => ?_
  refine (takes_punct .colon (.colonAfterField name.cause)).bind fun _ w _ => ?_
  refine takes_typeExpr.bind_pure fun type x htype f hf => ?_
  simp only [fixes_append] at hf
  simp only [Field.relocate, hattrs f hf.1, hname.2 f hf.2.1, htype f hf.2.2.2]

theorem takes_fields (owner : String) : Takes n (run (fields stop owner)) fun ds used =>
    ∀ f, Fixes f used → ds.map (·.relocate f) = ds := by
  rw [run_fields]
  refine (takes_punct .leftBrace (.body owner)).bind fun opening u _ => ?_
  refine (takes_members fun _ => takes_field).mono fun ds v hds f hf => ?_
  obtain ⟨spans, hspans, hspread⟩ := hds
  exact relocate_of_spread Field.relocate hspans hspread (fixes_append.mp hf).2

theorem takes_payload (name : String) : Takes n (runOptional (payload stop name)) fun o used =>
    ∀ f, Fixes f used → o.map (·.relocate f) = o := by
  rw [run_payload]
  refine (takes_accept .leftParen).bind fun
    | some _, _, _ => ?_
    | none, _, _ => (reads_ahead .leftBrace).takes.bind fun
      | some _, _, _ => takes_throw _
      | none, _, _ => takes_pure fun _ _ => rfl
  refine takes_typeExpr.bind fun type v htype => ?_
  refine (takes_punct .rightParen .payloadClosing).bind_pure fun _ w _ f hf => ?_
  simp only [fixes_append] at hf
  rw [Option.map_some, htype f hf.2.1]

theorem takes_variant : Takes n (run (variant stop)) fun v used =>
    ∀ f, Fixes f used → v.relocate f = v := by
  rw [run_variant]
  refine takes_attributes.bind fun attrs u hattrs => ?_
  refine (takes_ident .variantName).bind fun name v hname => ?_
  refine (takes_payload name.cause).bind_pure fun type w htype f hf => ?_
  simp only [fixes_append] at hf
  simp only [Variant.relocate, hattrs f hf.1, hname.2 f hf.2.1, htype f hf.2.2]

/-! ## Items -/

theorem takes_itemBody (attrs : List Attribute) (head : Located String) :
    Takes n (run (itemBody stop attrs head)) fun i used => ∀ f, Fixes f used →
      attrs.map (·.relocate f) = attrs → f head.location = head.location → i.relocate f = i := by
  rw [run_itemBody]
  split
  · rw [run_roleStruct]
    refine (takes_accept .colon).bind fun _ u _ => ?_
    refine (takes_fields _).bind_pure fun fields v hfields f hf hattrs hhead => ?_
    rw [fixes_append] at hf
    simp only [Item.relocate, Struct.relocate, hfields f hf.2, hattrs, hhead]
  · split
    · rw [run_namedStruct]
      refine (takes_ident .structName).bind fun name u _ => ?_
      refine reads_roleTag.takes.bind fun role v _ => ?_
      refine (takes_fields name.cause).bind_pure fun fields w hfields f hf hattrs hhead => ?_
      simp only [fixes_append] at hf
      simp only [Item.relocate, Struct.relocate, hfields f hf.2.2, hattrs, hhead]
    · split
      · rw [run_enumeration]
        refine (takes_ident .enumName).bind fun name u _ => ?_
        refine (takes_punct .leftBrace (.enumBody name.cause)).bind fun opening v _ => ?_
        refine (takes_members fun _ => takes_variant).bind_pure
          fun variants w hvariants f hf hattrs hhead => ?_
        simp only [fixes_append] at hf
        obtain ⟨spans, hspans, hspread⟩ := hvariants
        have hmembers := relocate_of_spread Variant.relocate hspans hspread hf.2.2
        simp only [Item.relocate, Enum.relocate, hmembers, hattrs, hhead]
      · exact takes_throw _

/-- An item has no places but those of the tokens it is read from, its attributes included. -/
theorem takes_item : Takes n (run (item stop)) fun i used =>
    ∀ f, Fixes f used → i.relocate f = i := by
  rw [run_item]
  refine takes_attributes.bind fun attrs u hattrs => ?_
  refine (takes_ident .itemHead).bind fun head v hhead => ?_
  refine (takes_itemBody attrs head).mono fun i w hi f hf => ?_
  simp only [fixes_append] at hf
  exact hi f hf.2.2 (hattrs f hf.1) (hhead.2 f hf.2.1)

/-! ## Spans -/

/-- The tokens that a rule reads a value from. -/
def ReadFrom (x : Rule α) (a : α) (span : List Token) : Prop :=
  ∃ rest, x (span ++ rest) = .ok (a, rest)

section

variable {x : Rule α} {r : α → List Token → Prop}

theorem Takes.readFrom (hx : Takes n x r) : Takes n x (ReadFrom x) := by
  intro ts a rest hlength h
  obtain ⟨used, rfl, -⟩ := hx ts a rest hlength h
  exact ⟨used, rfl, rest, h⟩

theorem Takes.of_readFrom (hx : ∀ n, Takes n x r) {a : α} {span : List Token}
    (h : ReadFrom x a span) : r a span := by
  obtain ⟨rest, hread⟩ := h
  obtain ⟨used, hused, hr⟩ := hx _ _ _ _ (Nat.le_refl _) hread
  rw [List.append_cancel_right hused]
  exact hr

end

theorem takes_method : Takes n (run (method stop)) fun m used =>
    ∃ spans, List.Forall₂ (ReadFrom (run (item stop))) m.items spans ∧ Spread spans used := by
  rw [run_method]
  refine reads_verb.takes.bind fun v t _ => ?_
  refine reads_path.takes.bind fun p u _ => ?_
  refine (reads_punct .arrow .arrow).takes.bind fun _ w _ => ?_
  refine (reads_punct .leftBrace .methodBody).takes.bind fun opening x _ => ?_
  refine (takes_members fun _ => takes_item.readFrom).bind_pure fun items y hitems => ?_
  obtain ⟨spans, hspans, hspread⟩ := hitems
  exact ⟨spans, hspans, (((hspread.behind x).behind w).behind u).behind t⟩

/-- The items of all methods, each from tokens of its own. -/
theorem takes_endpoint : Takes n (run (endpoint stop)) fun e used =>
    ∃ spans, List.Forall₂ (ReadFrom (run (item stop))) (e.methods.flatMap (·.items)) spans ∧
      Spread spans used := by
  rw [run_endpoint]
  refine (reads_punct .leftBracket .endpointOpening).takes.bind fun opening t _ => ?_
  refine reads_visibility.takes.bind fun isPublic u _ => ?_
  refine (reads_ident .endpointName).takes.bind fun name v _ => ?_
  refine (reads_punct .colon (.colonAfterEndpoint name.cause)).takes.bind fun _ w _ => ?_
  refine (reads_punct .leftBrace .endpointBody).takes.bind fun _ x _ => ?_
  refine (takes_members fun _ => takes_method).bind fun methods y hmethods => ?_
  refine (reads_punct .rightBracket (.endpointClosing name.cause)).takes.bind_pure fun _ z _ => ?_
  obtain ⟨runs, hruns, hspread⟩ := hmethods
  obtain ⟨spans, hspans, hspread⟩ := hspread.flatMap hruns
  refine ⟨spans, hspans, ?_⟩
  exact (((((hspread.before z).behind x).behind w).behind v).behind u).behind t

/-- An endpoint that a round finds is read where the round starts or behind a comma. -/
theorem exists_run_of_round {commaAllowed : Bool} {ts rest : List Token} {e : Endpoint}
    (h : round stop commaAllowed ts = (some (.ok e), rest)) :
    ∃ gap inside, ts = gap ++ inside ∧ run (endpoint stop) inside = .ok (e, rest) := by
  have hsuffix : (if commaAllowed = true then skip .comma ts else ts) <:+ ts := by
    split
    · exact skip_suffix .comma ts
    · exact List.suffix_rfl
  rw [round] at h
  obtain ⟨gap, hgap⟩ := hsuffix
  refine ⟨gap, _, hgap.symm, ?_⟩
  cases hinside : (if commaAllowed = true then skip .comma ts else ts) with
  | nil =>
    rw [hinside] at h
    cases h
  | cons t more =>
    rw [hinside, found] at h
    cases hread : run (endpoint stop) (t :: more) with
    | error e' =>
      rw [hread] at h
      cases h
    | ok r =>
      obtain ⟨e', more'⟩ := r
      rw [hread] at h
      cases h
      rfl

/-- The endpoints of all rounds, each from tokens of its own. -/
theorem Run.exists_spans {commaAllowed : Bool} {ts : List Token} {rs : List Round}
    (h : Run stop commaAllowed ts rs) :
    ∃ spans, List.Forall₂ (ReadFrom (run (endpoint stop))) (rs.filterMap Round.endpoint?) spans ∧
      Spread spans ts := by
  induction h with
  | done => exact ⟨[], .nil, .none []⟩
  | @next commaAllowed r rest more hround _ _ _ ih =>
    obtain ⟨spans, hspans, hspread⟩ := ih
    cases hfound : r.endpoint? with
    | none =>
      rw [List.filterMap_cons_none hfound]
      exact ⟨spans, hspans, hspread.behind r.span⟩
    | some e =>
      rw [Round.endpoint?_eq_some_iff.mp hfound] at hround
      obtain ⟨gap, inside, hgap, hread⟩ := exists_run_of_round hround
      obtain ⟨block, rfl, -⟩ := takes_endpoint _ _ _ (Nat.le_refl _) hread
      rw [List.filterMap_cons_some hfound, hgap]
      exact ⟨block :: spans, .cons ⟨rest, hread⟩ hspans, .next gap block hspread⟩

end Parser

/-- What the endpoints of a source are read from. -/
theorem exists_spans_of_tokens (unit : String) (list : TokenList) :
    ∃ spans, List.Forall₂ (Parser.ReadFrom (Parser.run (Parser.endpoint list.stop)))
      (ofTokens unit list).source.endpoints spans ∧ Spread spans list.tokens := by
  rw [endpoints_ofTokens]
  exact (Parser.run_rounds list.stop false list.tokens).exists_spans

/-- Endpoints are well formed even if there are errors besides them. -/
theorem wellFormed_of_parse {text unit : String} {e : Endpoint}
    (he : e ∈ (parse text unit).source.endpoints) : e.WellFormed := by
  rw [parse] at he
  cases hlist : Lexer.tokenize text unit with
  | error e' =>
    rw [hlist] at he
    cases he
  | ok list =>
    rw [hlist] at he
    obtain ⟨spans, hspans, -⟩ := exists_spans_of_tokens unit list
    obtain ⟨span, -, hread⟩ := exists_of_mem_forall₂_left hspans he
    exact (Parser.Takes.of_readFrom (fun _ => Parser.reads_endpoint) hread).2

/-- The items of all methods in source order. -/
def Source.items (s : Source) : List Item :=
  s.endpoints.flatMap fun e => e.methods.flatMap (·.items)

/-- What the items of a source are read from. -/
theorem exists_item_spans (unit : String) (list : TokenList) :
    ∃ spans, List.Forall₂ (Parser.ReadFrom (Parser.run (Parser.item list.stop)))
      (ofTokens unit list).source.items spans ∧ Spread spans list.tokens := by
  obtain ⟨runs, hruns, hspread⟩ := exists_spans_of_tokens unit list
  refine hspread.flatMap (hruns.imp fun e run hread => ?_)
  exact Parser.Takes.of_readFrom (fun _ => Parser.takes_endpoint) hread

end Tree
end EndpointDsl
