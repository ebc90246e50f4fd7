import EndpointDsl.Proofs.Tree.Grammar
import EndpointDsl.Proofs.Tree.Rules

/-!
What the parser reads is written in the grammar.

A rule that returns a tree has read one of the ways to write it, and the tree is well formed.  This
goes through the rules step by step: what a sequence has read is what its steps have read, one after
the other.  Rules that call themselves do so on shorter lists, so the length of the list is bounded
and the bound is what the induction is on.
-/

namespace EndpointDsl
namespace Tree
namespace Parser

open Grammar Language

section

variable {α β : Type} {n : Nat} {x : Rule α} {f : α → Rule β} {p : α → List Lexeme → Prop}
  {q : β → List Lexeme → Prop} {r : α → List Token → Prop} {s : β → List Token → Prop}

/-- On lists of at most `n` tokens, what the step takes off the front when it returns. -/
def Takes (n : Nat) (x : Rule α) (r : α → List Token → Prop) : Prop :=
  ∀ ts a rest, ts.length ≤ n → x ts = .ok (a, rest) → ∃ used, ts = used ++ rest ∧ r a used

theorem takes_pure {a : α} (h : r a []) : Takes n (pure a) r := by
  rintro ts b rest - hread
  cases hread
  exact ⟨[], rfl, h⟩

theorem takes_throw (e : SyntaxError) : Takes n (throw e) r := by
  rintro ts b rest - hread
  cases hread

theorem run_bind_eq_ok {ts rest : List Token} {b : β} (h : (x >>= f) ts = .ok (b, rest)) :
    ∃ a mid, x ts = .ok (a, mid) ∧ f a mid = .ok (b, rest) := by
  cases hx : x ts with
  | error e =>
    rw [run_bind_error hx] at h
    cases h
  | ok r =>
    obtain ⟨a, mid⟩ := r
    rw [run_bind hx] at h
    exact ⟨a, mid, rfl, h⟩

theorem Takes.mono {r' : α → List Token → Prop} (hx : Takes n x r)
    (h : ∀ a used, r a used → r' a used) : Takes n x r' := by
  intro ts a rest hlength hread
  obtain ⟨used, hts, hr⟩ := hx ts a rest hlength hread
  exact ⟨used, hts, h a _ hr⟩

theorem Takes.bind (hx : Takes n x r)
    (hf : ∀ a used, r a used → Takes n (f a) fun b used' => s b (used ++ used')) :
    Takes n (x >>= f) s := by
  intro ts b rest hlength h
  obtain ⟨a, mid, hread, hnext⟩ := run_bind_eq_ok h
  obtain ⟨used, rfl, hr⟩ := hx ts a mid hlength hread
  have hmid : mid.length ≤ n := by
    rw [List.length_append] at hlength
    omega
  obtain ⟨used', rfl, hs⟩ := hf a _ hr mid b rest hmid hnext
  exact ⟨used ++ used', (List.append_assoc _ _ _).symm, hs⟩

theorem Takes.bind_pure {g : α → β} (hx : Takes n x r) (h : ∀ a used, r a used → s (g a) used) :
    Takes n (x >>= fun a => pure (g a)) s :=
  hx.bind fun a used hr => takes_pure (by rw [List.append_nil]; exact h a used hr)

/-- After a step that reads something, fewer tokens are left. -/
theorem Takes.bind_shrinks (hx : Takes n x r) (hshrinks : Shrinks x)
    (hf : ∀ k < n, ∀ a used, r a used → Takes k (f a) fun b used' => s b (used ++ used')) :
    Takes n (x >>= f) s := by
  intro ts b rest hlength h
  obtain ⟨a, mid, hread, hnext⟩ := run_bind_eq_ok h
  have hshorter := hshrinks ts a mid hread
  obtain ⟨used, rfl, hr⟩ := hx ts a mid hlength hread
  obtain ⟨used', rfl, hs⟩ := hf mid.length (by omega) a _ hr mid b rest (Nat.le_refl _) hnext
  exact ⟨used ++ used', (List.append_assoc _ _ _).symm, hs⟩

/-- On lists of at most `n` tokens, what the step has read when it returns. -/
def Reads (n : Nat) (x : Rule α) (p : α → List Lexeme → Prop) : Prop :=
  ∀ ts a rest, ts.length ≤ n → x ts = .ok (a, rest) →
    ∃ used, ts = used ++ rest ∧ p a (used.map (·.lexeme))

/-- Reading is taking, as far as the lexemes tell. -/
theorem reads_iff : Reads n x p ↔ Takes n x fun a used => p a (used.map (·.lexeme)) := Iff.rfl

theorem reads_pure {a : α} (h : p a []) : Reads n (pure a) p := takes_pure h

theorem reads_throw (e : SyntaxError) : Reads n (throw e) p := takes_throw e

theorem Reads.mono {p' : α → List Lexeme → Prop} (hx : Reads n x p) (h : ∀ a l, p a l → p' a l) :
    Reads n x p' :=
  Takes.mono hx fun a _ => h a _

theorem Reads.bind (hx : Reads n x p) (hf : ∀ a l, p a l → Reads n (f a) fun b l' => q b (l ++ l')) :
    Reads n (x >>= f) q := by
  rw [reads_iff] at hx ⊢
  refine hx.bind fun a used hp => Takes.mono (hf a _ hp) fun b used' hq => ?_
  rw [List.map_append]
  exact hq

theorem Reads.bind_pure {g : α → β} (hx : Reads n x p) (h : ∀ a l, p a l → q (g a) l) :
    Reads n (x >>= fun a => pure (g a)) q :=
  Takes.bind_pure hx fun a _ => h a _

theorem Reads.bind_shrinks (hx : Reads n x p) (hshrinks : Shrinks x)
    (hf : ∀ k < n, ∀ a l, p a l → Reads k (f a) fun b l' => q b (l ++ l')) :
    Reads n (x >>= f) q := by
  rw [reads_iff] at hx ⊢
  refine hx.bind_shrinks hshrinks fun k hk a used hp => ?_
  refine Takes.mono (hf k hk a _ hp) fun b used' hq => ?_
  rw [List.map_append]
  exact hq

/-- What is read behind a token. -/
theorem Reads.behind {t : Token} {more rest : List Token} {a : α} (hx : Reads n x p)
    (hlength : more.length ≤ n) (h : x more = .ok (a, rest)) :
    ∃ used, t :: more = used ++ rest ∧ ∃ l, p a l ∧ used.map (·.lexeme) = t.lexeme :: l := by
  obtain ⟨used, rfl, hused⟩ := hx more a rest hlength h
  exact ⟨t :: used, rfl, _, hused, rfl⟩

end

variable {stop : Location} {n : Nat}

/-! ## Single tokens -/

theorem reads_ident (wanted : Wanted) :
    Reads n (run (ident stop wanted)) fun name l => l = [.ident name.cause] := by
  rintro (_ | ⟨⟨lexeme, place⟩, more⟩) a rest - h
  · cases h
  · cases lexeme with
    | ident name =>
      cases h
      exact ⟨[⟨.ident name, place⟩], rfl, rfl⟩
    | literal value => cases h
    | punct mark => cases h

theorem reads_literal (wanted : Wanted) :
    Reads n (run (literal stop wanted)) fun value l => l = [.literal value.cause] := by
  rintro (_ | ⟨⟨lexeme, place⟩, more⟩) a rest - h
  · cases h
  · cases lexeme with
    | ident name => cases h
    | literal value =>
      cases h
      exact ⟨[⟨.literal value, place⟩], rfl, rfl⟩
    | punct mark => cases h

theorem reads_punct (mark : Punct) (wanted : Wanted) :
    Reads n (run (punct stop mark wanted)) fun _ l => l = [.punct mark] := by
  rintro (_ | ⟨⟨lexeme, place⟩, more⟩) a rest - h
  · cases h
  · by_cases heq : lexeme = .punct mark
    · subst heq
      rw [run_punct_mark] at h
      cases h
      exact ⟨[⟨.punct mark, place⟩], rfl, rfl⟩
    · rw [run_punct_of_ne heq] at h
      cases h

/-- What is read of a mark that may be missing. -/
def accepted (mark : Punct) : Option Location → List Lexeme
  | some _ => [.punct mark]
  | none => []

theorem reads_accept (mark : Punct) : Reads n (accept mark) fun o l => l = accepted mark o := by
  rintro ts a rest - h
  rcases mark_cases mark ts with ⟨place, more, rfl⟩ | hne
  · rw [accept_mark] at h
    cases h
    exact ⟨[⟨.punct mark, place⟩], rfl, rfl⟩
  · rw [accept_of_ne hne] at h
    cases h
    exact ⟨[], rfl, rfl⟩

theorem reads_ahead (mark : Punct) : Reads n (ahead mark) fun _ l => l = [] := by
  rintro ts a rest - h
  rcases mark_cases mark ts with ⟨place, more, rfl⟩ | hne
  · rw [ahead_mark] at h
    cases h
    exact ⟨[], rfl, rfl⟩
  · rw [ahead_of_ne hne] at h
    cases h
    exact ⟨[], rfl, rfl⟩

/-! ## Attributes -/

theorem reads_attributeItem :
    Reads n (run (attributeItem stop)) fun i l => l ∈ i.written := by
  rintro (_ | ⟨⟨lexeme, place⟩, more⟩) a rest hlength h
  · cases h
  · cases lexeme with
    | punct mark => cases h
    | literal value =>
      cases h
      exact ⟨[⟨.literal value, place⟩], rfl, rfl⟩
    | ident key =>
      rw [run_attributeItem_ident] at h
      obtain ⟨used, hts, l, hl, hused⟩ := Reads.behind (t := ⟨.ident key, place⟩)
        (p := fun (i : AttributeItem) l => .ident key :: l ∈ i.written)
        ((reads_accept .equals).bind fun
          | some _, _, rfl => (reads_literal (.attributeValue key)).bind_pure fun value l hl => by
              rw [hl]
              exact append_mem_mul (append_mem_mul (mem_word key) (mem_mark .equals)) (mem_quoted _)
          | none, _, rfl => reads_pure (by rfl)) (Nat.le_of_succ_le hlength) h
      exact ⟨used, hts, by rw [hused]; exact hl⟩

/-- What closes an attribute after its items.  No items are read where a comma came before. -/
def writtenItems : List AttributeItem → Language Lexeme
  | [] => mark .rightBracket
  | item :: items => commaSeparated ((item :: items).map AttributeItem.written) *
      (optional (mark .comma) * mark .rightBracket)

theorem writtenItems_of_ne_nil {items : List AttributeItem} (h : items ≠ []) :
    writtenItems items = commaSeparated (items.map AttributeItem.written) *
      (optional (mark .comma) * mark .rightBracket) := by
  cases items with
  | nil => exact absurd rfl h
  | cons item items => rfl

theorem cons_mem_writtenItems {item : AttributeItem} {items : List AttributeItem}
    {x y : List Lexeme} (hitem : x ∈ item.written) (hitems : y ∈ writtenItems items) :
    x ++ ([.punct .comma] ++ y) ∈ writtenItems (item :: items) := by
  rw [writtenItems_of_ne_nil (List.cons_ne_nil item items), List.map_cons]
  by_cases hnil : items = []
  · subst hnil
    rw [List.map_nil, commaSeparated_singleton]
    exact append_mem_mul hitem (append_mem_mul (mem_optional (mem_mark .comma)) hitems)
  · rw [writtenItems_of_ne_nil hnil] at hitems
    rw [commaSeparated_cons (by simpa using hnil), mul_assoc, mul_assoc]
    exact append_mem_mul hitem (append_mem_mul (mem_mark .comma) hitems)

theorem reads_attributeItems :
    Reads n (run (attributeItems stop)) fun items l => l ∈ writtenItems items := by
  induction n using Nat.strong_induction_on with
  | h n ih =>
    rw [run_attributeItems]
    refine (reads_accept .rightBracket).bind fun
      | some _, _, rfl => reads_pure rfl
      | none, _, rfl => ?_
    refine reads_attributeItem.bind_shrinks (shrinks_run _) fun k hk item l hl => ?_
    refine (reads_accept .comma).bind fun
      | some _, _, rfl => (ih k hk).bind_pure fun others y hy => cons_mem_writtenItems hl hy
      | none, _, rfl => (reads_punct .rightBracket .attributeClosing).bind_pure fun _ y hy => ?_
    rw [hy, writtenItems_of_ne_nil (List.cons_ne_nil item []), List.map_singleton,
      commaSeparated_singleton]
    show l ++ ([] ++ [.punct .rightBracket]) ∈ _
    exact append_mem_mul hl (append_mem_mul (nil_mem_optional _) (mem_mark .rightBracket))

theorem reads_bracketed :
    Reads n (run (bracketed stop)) fun a l => l ∈ a.written ∧ a.WellFormed := by
  rw [run_bracketed]
  refine (reads_punct .leftBracket .attributeItem).bind fun opening _ hopening => ?_
  refine reads_attributeItems.bind fun items l hl => ?_
  split
  · exact reads_throw _
  · next hne =>
    rw [List.isEmpty_iff] at hne
    refine reads_pure ⟨?_, hne⟩
    rw [writtenItems_of_ne_nil hne] at hl
    rw [hopening, List.append_nil, Attribute.written, mul_assoc, mul_assoc]
    exact append_mem_mul (mem_mark .leftBracket) hl

theorem reads_attributes : Reads n (runOptional (attributes stop)) fun attrs l =>
    l ∈ writtenAttributes attrs ∧ ∀ a ∈ attrs, a.WellFormed := by
  induction n using Nat.strong_induction_on with
  | h n ih =>
    rw [run_attributes]
    refine (reads_ahead .leftBracket).bind fun
      | some _, _, rfl => ?_
      | none, _, rfl => reads_pure ⟨rfl, by simp⟩
    refine reads_bracketed.bind_shrinks (shrinks_run _) fun k hk first l hl => ?_
    refine (ih k hk).bind_pure fun others y hy => ⟨?_, List.forall_mem_cons.mpr ⟨hl.2, hy.2⟩⟩
    rw [List.nil_append, writtenAttributes, List.map_cons, List.prod_cons]
    exact append_mem_mul hl.1 hy.1

/-! ## Type expressions -/

/-- The type without the mark in front of it. -/
def writtenNamed (name : String) (args : List TypeExpr) : Language Lexeme :=
  word name * angled (writtenArgs args)

/-- The arguments of a type, and the bracket after them. -/
def ReadsArgs (args : List TypeExpr) (l : List Lexeme) : Prop :=
  args ≠ [] ∧ l ∈ commaSeparated (args.map TypeExpr.written) * mark .rightAngle

theorem reads_types :
    Reads n (run (typeExpr stop)) (fun t l => l ∈ t.written) ∧
    (∀ start isOptional, Reads n (run (namedType stop start isOptional)) fun t l =>
      t.optional = isOptional ∧ l ∈ writtenNamed t.name t.args) ∧
    Reads n (run (typeArgs stop)) ReadsArgs := by
  induction n using Nat.strong_induction_on with
  | h n ih =>
    have hnamed : ∀ start isOptional, Reads n (run (namedType stop start isOptional)) fun t l =>
        t.optional = isOptional ∧ l ∈ writtenNamed t.name t.args := by
      intro start isOptional
      rw [run_namedType]
      refine (reads_ident .typeName).bind_shrinks (shrinks_run _) fun k hk name l hl => ?_
      refine (reads_accept .leftAngle).bind fun opening y hopening => ?_
      cases opening with
      | none =>
        refine reads_pure ⟨rfl, ?_⟩
        rw [hl, hopening, writtenNamed, writtenArgs_eq_map, List.map_nil]
        exact append_mem_mul (mem_word _) rfl
      | some _ =>
        refine (reads_ahead .rightAngle).bind fun closing z hclosing => ?_
        cases closing with
        | some _ => exact reads_throw _
        | none =>
          refine ((ih k hk).2.2).bind_pure fun args w hw => ⟨rfl, ?_⟩
          rw [hl, hopening, hclosing, writtenNamed, writtenArgs_eq_map,
            angled_of_ne_nil (by simpa using hw.1), mul_assoc]
          exact append_mem_mul (mem_word _) (append_mem_mul (mem_mark .leftAngle) hw.2)
    have htype : Reads n (run (typeExpr stop)) fun t l => l ∈ t.written := by
      intro ts a rest hlength h
      rw [run_typeExpr] at h
      refine Reads.bind (reads_accept .question) (fun o l hl => ?_) ts a rest hlength h
      cases o with
      | some place =>
        refine (hnamed place true).mono fun t y hy => ?_
        obtain ⟨name, isOptional, args, place⟩ := t
        obtain ⟨rfl, hy⟩ := hy
        rw [hl, TypeExpr.written_mk, mul_assoc]
        exact append_mem_mul (mem_mark .question) hy
      | none =>
        refine (hnamed (here stop ts) false).mono fun t y hy => ?_
        obtain ⟨name, isOptional, args, place⟩ := t
        obtain ⟨rfl, hy⟩ := hy
        rw [hl, TypeExpr.written_mk, mul_assoc]
        exact append_mem_mul rfl hy
    refine ⟨htype, hnamed, ?_⟩
    rw [run_typeArgs]
    refine htype.bind_shrinks (shrinks_run _) fun k hk first l hl => ?_
    refine (reads_accept .comma).bind fun comma y hcomma => ?_
    cases comma with
    | some _ =>
      refine ((ih k hk).2.2).bind_pure fun others z hz => ⟨List.cons_ne_nil _ _, ?_⟩
      rw [hcomma, List.map_cons, commaSeparated_cons (by simpa using hz.1), mul_assoc, mul_assoc]
      exact append_mem_mul hl (append_mem_mul (mem_mark .comma) hz.2)
    | none =>
      refine (reads_punct .rightAngle .argumentsClosing).bind_pure fun _ z hz =>
        ⟨List.cons_ne_nil _ _, ?_⟩
      rw [hcomma, hz, List.map_singleton, commaSeparated_singleton]
      exact append_mem_mul hl (mem_mark .rightAngle)

theorem reads_typeExpr : Reads n (run (typeExpr stop)) fun t l => l ∈ t.written := reads_types.1

/-! ## Blocks -/

/-- What may stand between two members. -/
def Separator.written : Separator → Language Lexeme
  | .nothing => 1
  | .optionalComma => optional (mark .comma)

theorem reads_separator (separator : Separator) :
    Reads n separator.rule fun _ l => l ∈ separator.written := by
  cases separator with
  | nothing => exact reads_pure rfl
  | optionalComma =>
    refine (reads_accept .comma).bind fun
      | some _, _, rfl => reads_pure (mem_optional (mem_mark .comma))
      | none, _, rfl => reads_pure (nil_mem_optional _)

theorem reads_members {α : Type} {rule : (ts : List Token) → Except SyntaxError (Reading ts α)}
    {separator : Separator} {unclosed : SyntaxError} {w : α → Language Lexeme} {good : α → Prop}
    (hrule : ∀ k, Reads k (run rule) fun a l => l ∈ w a ∧ good a) :
    Reads n (run (members rule separator unclosed)) fun as l =>
      l ∈ (as.map fun a => w a * separator.written).prod * mark .rightBrace ∧
        ∀ a ∈ as, good a := by
  induction n using Nat.strong_induction_on with
  | h n ih =>
    rintro (_ | ⟨t, more⟩) as rest hlength h
    · rw [run_members_nil] at h
      cases h
    · rw [run_members_cons] at h
      refine Reads.bind (q := fun as l =>
        l ∈ (as.map fun a => w a * separator.written).prod * mark .rightBrace ∧ ∀ a ∈ as, good a)
        (reads_accept .rightBrace) (fun o l hl => ?_) _ as rest hlength h
      cases o with
      | some place =>
        refine reads_pure ⟨?_, by simp⟩
        rw [hl]
        exact append_mem_mul (a := []) rfl (mem_mark .rightBrace)
      | none =>
        refine (hrule n).bind_shrinks (shrinks_run _) fun k hk first x hx => ?_
        refine (reads_separator separator).bind fun _ y hy => ?_
        refine (ih k hk).bind_pure fun others z hz => ⟨?_, List.forall_mem_cons.mpr ⟨hx.2, hz.2⟩⟩
        rw [hl, List.map_cons, List.prod_cons, mul_assoc, mul_assoc]
        show x ++ (y ++ z) ∈ _
        exact append_mem_mul hx.1 (append_mem_mul hy hz.1)

theorem mem_braced {l : Language Lexeme} {x : List Lexeme} (h : x ∈ l * mark .rightBrace) :
    [.punct .leftBrace] ++ x ∈ braced l := by
  rw [braced, mul_assoc]
  exact append_mem_mul (mem_mark .leftBrace) h

theorem reads_field : Reads n (run (field stop)) fun f l => l ∈ f.written ∧ f.WellFormed := by
  rw [run_field]
  refine reads_attributes.bind fun attrs x hx => ?_
  refine (reads_ident .fieldName).bind fun name y hy => ?_
  refine (reads_punct .colon _).bind fun _ z hz => ?_
  refine reads_typeExpr.bind_pure fun type l hl => ⟨?_, hx.2⟩
  rw [hy, hz, Field.written, mul_assoc, mul_assoc]
  exact append_mem_mul hx.1 (append_mem_mul (mem_word _) (append_mem_mul (mem_mark .colon) hl))

theorem reads_fields (owner : String) : Reads n (run (fields stop owner)) fun fields l =>
    l ∈ braced (writtenMembers Field.written fields) ∧ ∀ f ∈ fields, f.WellFormed := by
  rw [run_fields]
  refine (reads_punct .leftBrace _).bind fun opening x hx => ?_
  refine (reads_members fun _ => reads_field).mono fun fields l hl => ⟨?_, hl.2⟩
  rw [hx]
  exact mem_braced hl.1

theorem reads_payload (name : String) :
    Reads n (runOptional (payload stop name)) fun payload l => l ∈ writtenPayload payload := by
  rw [run_payload]
  refine (reads_accept .leftParen).bind fun
    | some _, _, rfl => ?_
    | none, _, rfl => ?_
  · refine reads_typeExpr.bind fun type x hx => ?_
    refine (reads_punct .rightParen .payloadClosing).bind_pure fun _ y hy => ?_
    rw [hy, writtenPayload, mul_assoc]
    exact append_mem_mul (mem_mark .leftParen) (append_mem_mul hx (mem_mark .rightParen))
  · exact (reads_ahead .leftBrace).bind fun
      | some place, _, rfl => reads_throw _
      | none, _, rfl => reads_pure rfl

theorem reads_variant : Reads n (run (variant stop)) fun v l => l ∈ v.written ∧ v.WellFormed := by
  rw [run_variant]
  refine reads_attributes.bind fun attrs x hx => ?_
  refine (reads_ident .variantName).bind fun name y hy => ?_
  refine (reads_payload name.cause).bind_pure fun payload z hz => ⟨?_, hx.2⟩
  rw [hy, Variant.written, mul_assoc]
  exact append_mem_mul hx.1 (append_mem_mul (mem_word _) hz)

/-! ## Items -/

theorem reads_roleTag :
    Reads n (runOptional (roleTag stop)) fun role l => l ∈ writtenRole role := by
  rw [run_roleTag]
  refine (reads_accept .leftAngle).bind fun
    | none, _, rfl => reads_pure rfl
    | some _, _, rfl => ?_
  refine (reads_ident .role).bind fun word x hx => ?_
  split
  · exact reads_throw _
  · next role hrole =>
    refine (reads_punct .rightAngle .roleClosing).bind_pure fun _ y hy => ?_
    rw [hx, hy, writtenRole, mul_assoc, ← Role.name_of_ofName? hrole]
    exact append_mem_mul (mem_mark .leftAngle)
      (append_mem_mul (mem_word _) (mem_mark .rightAngle))

theorem reads_itemBody (attrs : List Attribute) (head : Located String) :
    Reads n (run (itemBody stop attrs head)) fun i l =>
      i.attributes = attrs ∧ [.ident head.cause] ++ l ∈ i.body ∧ i.MembersWellFormed := by
  rw [run_itemBody]
  split
  · next role hrole =>
    rw [run_roleStruct]
    refine (reads_accept .colon).bind fun o x hx => ?_
    refine (reads_fields role.name).bind_pure fun fields y hy => ⟨rfl, ?_, hy.2⟩
    have hcolon : x ∈ optional (mark .colon) := by
      cases o with
      | some place => exact hx ▸ mem_optional (mem_mark .colon)
      | none => exact hx ▸ nil_mem_optional _
    rw [← Role.name_of_ofName? hrole, ← List.append_assoc]
    refine append_mem_mul (Or.inl ?_) hy.1
    exact mem_iSup.mpr ⟨role, mem_iSup.mpr ⟨⟨rfl, rfl⟩, append_mem_mul (mem_word _) hcolon⟩⟩
  · split
    · next hhead =>
      rw [run_namedStruct]
      refine (reads_ident .structName).bind fun name x hx => ?_
      refine reads_roleTag.bind fun role y hy => ?_
      refine (reads_fields name.cause).bind_pure fun fields z hz => ⟨rfl, ?_, hz.2⟩
      rw [hhead, hx, ← List.append_assoc, ← List.append_assoc]
      refine append_mem_mul (Or.inr ?_) hz.1
      exact append_mem_mul (append_mem_mul (mem_word _) (mem_word _)) hy
    · split
      · next hhead =>
        rw [run_enumeration]
        refine (reads_ident .enumName).bind fun name x hx => ?_
        refine (reads_punct .leftBrace _).bind fun opening y hy => ?_
        refine (reads_members fun _ => reads_variant).bind_pure fun variants z hz =>
          ⟨rfl, ?_, hz.2⟩
        rw [hhead, hx, hy, ← List.append_assoc]
        exact append_mem_mul (append_mem_mul (mem_word _) (mem_word _)) (mem_braced hz.1)
      · exact reads_throw _

theorem reads_item : Reads n (run (item stop)) fun i l => l ∈ i.written ∧ i.WellFormed := by
  rw [run_item]
  refine reads_attributes.bind fun attrs x hx => ?_
  refine (reads_ident .itemHead).bind fun head y hy => ?_
  refine (reads_itemBody attrs head).mono fun i z hz => ?_
  obtain ⟨rfl, hbody, hmembers⟩ := hz
  rw [hy]
  exact ⟨append_mem_mul hx.1 hbody, hx.2, hmembers⟩

/-! ## Methods and endpoints -/

theorem reads_verb : Reads n (run (verb stop)) fun v l => l ∈ word v.cause.name := by
  rw [run_verb]
  refine (reads_ident .verb).bind fun w x hx => ?_
  split
  · exact reads_throw _
  · next v hv =>
    refine reads_pure ?_
    rw [hx, ← Verb.name_of_ofName? hv]
    exact mem_word _

theorem reads_path : Reads n (run (path stop)) fun t l =>
    l ∈ quoted t.cause.raw ∧ PathTemplate.Spells t.cause.segments t.cause.raw.toList := by
  rw [run_path]
  refine (reads_literal .path).bind fun raw x hx => ?_
  split
  · exact reads_throw _
  · next t ht =>
    obtain ⟨hraw, hsegments⟩ := PathTemplate.parse_eq_ok_iff.mp ht
    refine reads_pure ⟨?_, hraw ▸ hsegments⟩
    rw [hx, hraw]
    exact mem_quoted _

theorem reads_method : Reads n (run (method stop)) fun m l => l ∈ m.written ∧ m.WellFormed := by
  rw [run_method]
  refine reads_verb.bind fun v x hx => ?_
  refine reads_path.bind fun t y hy => ?_
  refine (reads_punct .arrow .arrow).bind fun _ z hz => ?_
  refine (reads_punct .leftBrace .methodBody).bind fun opening u hu => ?_
  refine (reads_members fun _ => reads_item).bind_pure fun items l hl => ⟨?_, hy.2, hl.2⟩
  have hitems := hl.1
  simp only [Separator.written, mul_one] at hitems
  rw [hz, hu, Method.written, mul_assoc, mul_assoc]
  exact append_mem_mul hx (append_mem_mul hy.1 (append_mem_mul (mem_mark .arrow)
    (mem_braced hitems)))

theorem reads_visibility : Reads n (runOptional fun ts => .ok (visibility ts)) fun b l =>
    l ∈ given b (word "pub") := by
  rintro ts b rest - h
  cases h
  unfold visibility
  split
  · split
    · next hpub => exact ⟨[_], rfl, by rw [hpub]; exact mem_word _⟩
    · exact ⟨[], rfl, rfl⟩
  · exact ⟨[], rfl, rfl⟩

theorem reads_endpoint : Reads n (run (endpoint stop)) fun e l => l ∈ e.written ∧ e.WellFormed := by
  rw [run_endpoint]
  refine (reads_punct .leftBracket .endpointOpening).bind fun opening x hx => ?_
  refine reads_visibility.bind fun isPublic y hy => ?_
  refine (reads_ident .endpointName).bind fun name z hz => ?_
  refine (reads_punct .colon _).bind fun _ u hu => ?_
  refine (reads_punct .leftBrace .endpointBody).bind fun _ v hv => ?_
  refine (reads_members fun _ => reads_method).bind fun methods l hl => ?_
  refine (reads_punct .rightBracket _).bind_pure fun _ r hr => ⟨?_, hl.2⟩
  have hmethods := hl.1
  simp only [Separator.written, mul_one] at hmethods
  have hbody := append_mem_mul (mem_braced hmethods) (mem_mark .rightBracket)
  rw [List.append_assoc] at hbody
  rw [hx, hz, hu, hv, hr, Endpoint.written, mul_assoc, mul_assoc, mul_assoc, mul_assoc]
  exact append_mem_mul (mem_mark .leftBracket) (append_mem_mul hy
    (append_mem_mul (mem_word _) (append_mem_mul (mem_mark .colon) hbody)))

/-! ## Blocks one after another -/

theorem writtenEndpoints_cons (e : Endpoint) (more : List Endpoint) :
    writtenEndpoints (e :: more) = e.written *
      ((more.map (optional (mark .comma) * ·.written)).prod * optional (mark .comma)) := by
  rw [writtenEndpoints, mul_assoc]

/-- The endpoints after another one, with what may stand in front of them. -/
theorem mem_writtenEndpoints_tail {es : List Endpoint} {x y : List Lexeme}
    (hx : x ∈ optional (mark .comma)) (hy : y ∈ writtenEndpoints es) :
    x ++ y ∈ (es.map (optional (mark .comma) * ·.written)).prod * optional (mark .comma) := by
  cases es with
  | nil =>
    rw [List.map_nil, List.prod_nil, one_mul, (mem_one _).mp hy, List.append_nil]
    exact hx
  | cons e more =>
    rw [writtenEndpoints_cons] at hy
    rw [List.map_cons, List.prod_cons, mul_assoc, mul_assoc]
    exact append_mem_mul hx hy

theorem exists_skip_comma (ts : List Token) :
    ∃ x ∈ optional (mark .comma),
      ts.map (·.lexeme) = x ++ (skip .comma ts).map (·.lexeme) := by
  rcases mark_cases .comma ts with ⟨place, rest, rfl⟩ | hne
  · exact ⟨_, mem_optional (mem_mark .comma), by rw [skip_mark]; rfl⟩
  · exact ⟨[], nil_mem_optional _, by rw [skip_of_ne hne]; rfl⟩

/-- Blocks without an error are the endpoints they are read as. -/
theorem mem_writtenEndpoints_of_firstBlock (ts : List Token)
    (h : (firstBlock stop ts).filterMap errorValue? = []) :
    ts.map (·.lexeme) ∈ writtenEndpoints ((firstBlock stop ts).filterMap okValue?) ∧
      ∀ e ∈ (firstBlock stop ts).filterMap okValue?, e.WellFormed := by
  induction hn : ts.length using Nat.strong_induction_on generalizing ts with
  | h n ih =>
    cases ts with
    | nil => exact ⟨rfl, by simp [firstBlock]⟩
    | cons t rest =>
      cases hread : run (endpoint stop) (t :: rest) with
      | error e =>
        rw [firstBlock, hread] at h
        cases h
      | ok r =>
        obtain ⟨a, more⟩ := r
        have hblocks : firstBlock stop (t :: rest) = .ok a :: firstBlock stop (skip .comma more) := by
          rw [firstBlock, hread, ← blocks_after]
        have hshorter : (skip .comma more).length < n := by
          have hmore := shrinks_run _ _ _ _ hread
          have hskip := length_skip_le .comma more
          omega
        rw [hblocks] at h ⊢
        obtain ⟨hmem, hgood⟩ := ih _ hshorter _ h rfl
        obtain ⟨used, hused, hwritten, ha⟩ := reads_endpoint _ _ _ (Nat.le_refl _) hread
        obtain ⟨x, hx, hcomma⟩ := exists_skip_comma more
        refine ⟨?_, List.forall_mem_cons.mpr ⟨ha, hgood⟩⟩
        show _ ∈ writtenEndpoints (a :: _)
        rw [hused, List.map_append, hcomma, writtenEndpoints_cons]
        exact append_mem_mul hwritten (mem_writtenEndpoints_tail hx hmem)

end Parser

theorem written_of_ofTokens {unit : String} {list : TokenList}
    (h : (ofTokens unit list).errors = []) :
    list.tokens.map (·.lexeme) ∈ writtenEndpoints (ofTokens unit list).source.endpoints ∧
      ∀ e ∈ (ofTokens unit list).source.endpoints, e.WellFormed := by
  have hblocks : Parser.blocks list.stop false list.tokens =
      Parser.firstBlock list.stop list.tokens := Parser.blocks_eq_firstBlock false list.tokens
  simp only [ofTokens, hblocks] at h ⊢
  exact Parser.mem_writtenEndpoints_of_firstBlock list.tokens h

end Tree
end EndpointDsl
