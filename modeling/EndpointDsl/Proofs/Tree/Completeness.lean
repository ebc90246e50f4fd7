import EndpointDsl.Proofs.Tree.Soundness

/-!
Every way to write a tree is read back as the tree, up to locations.

Where the grammar leaves a choice, the parser looks at the next mark only: whether a comma, an
equals sign or a bracket comes.  So a rule reads a phrase back if what follows the phrase does not
start with a mark that would make it longer, and each rule is followed by something that does not.
-/

namespace EndpointDsl
namespace Tree

/-! ## Trees without their locations -/

mutual

def TypeExpr.bare : TypeExpr → TypeExpr
  | ⟨name, isOptional, args, _⟩ => ⟨name, isOptional, bareArgs args, default⟩

def bareArgs : List TypeExpr → List TypeExpr
  | [] => []
  | t :: more => t.bare :: bareArgs more

end

def AttributeItem.bare (i : AttributeItem) : AttributeItem := ⟨i.entry, default⟩

def Attribute.bare (a : Attribute) : Attribute := ⟨a.items.map AttributeItem.bare, default⟩

def Field.bare (f : Field) : Field :=
  ⟨f.name, f.type.bare, f.attributes.map Attribute.bare, default⟩

def Variant.bare (v : Variant) : Variant :=
  ⟨v.name, v.payload.map TypeExpr.bare, v.attributes.map Attribute.bare, default⟩

def Item.bare : Item → Item
  | .struct s =>
    .struct ⟨s.name, s.role, s.fields.map Field.bare, s.attributes.map Attribute.bare, default⟩
  | .enum e => .enum ⟨e.name, e.variants.map Variant.bare, e.attributes.map Attribute.bare, default⟩

def Method.bare (m : Method) : Method :=
  ⟨m.verb, m.path, default, m.items.map Item.bare, default⟩

def Endpoint.bare (e : Endpoint) : Endpoint :=
  ⟨e.name, e.isPublic, e.methods.map Method.bare, default⟩

namespace Parser

open Grammar Language

/-! ## Steps that read a phrase -/

/-- The tokens do not start with the mark. -/
def Free (m : Punct) (ts : List Token) : Prop := ∀ place rest, ts ≠ ⟨.punct m, place⟩ :: rest

section

variable {α β : Type} {x : Rule α} {f : α → Rule β} {l k : Language Lexeme}
  {next next' : List Token → Prop} {p : α → Prop} {q : β → Prop} {m : Punct}

/-- The step reads every phrase of the language that is followed by what it may be followed by. -/
def Accepts (x : Rule α) (l : Language Lexeme) (next : List Token → Prop) (p : α → Prop) : Prop :=
  ∀ used rest, used.map (·.lexeme) ∈ l → next rest → ∃ a, x (used ++ rest) = .ok (a, rest) ∧ p a

/-- A phrase of the language and what may follow it do not start with the mark. -/
def Avoids (m : Punct) (l : Language Lexeme) (next : List Token → Prop) : Prop :=
  ∀ used rest, used.map (·.lexeme) ∈ l → next rest → Free m (used ++ rest)

theorem exists_of_mem_mul {used : List Token} (h : used.map (·.lexeme) ∈ l * k) :
    ∃ first more, used = first ++ more ∧ first.map (·.lexeme) ∈ l ∧ more.map (·.lexeme) ∈ k := by
  obtain ⟨y, hy, z, hz, heq⟩ := mem_mul.mp h
  obtain ⟨first, more, rfl, rfl, rfl⟩ := List.map_eq_append_iff.mp heq.symm
  exact ⟨first, more, rfl, hy, hz⟩

theorem exists_of_mem_single_mul {lexeme : Lexeme} {used : List Token}
    (h : used.map (·.lexeme) ∈ ({[lexeme]} : Language Lexeme) * k) :
    ∃ place more, used = ⟨lexeme, place⟩ :: more ∧ more.map (·.lexeme) ∈ k := by
  obtain ⟨first, more, rfl, hfirst, hmore⟩ := exists_of_mem_mul h
  obtain ⟨t, rfl, rfl⟩ := List.map_eq_singleton_iff.mp hfirst
  exact ⟨t.location, more, rfl, hmore⟩

theorem Accepts.agree {used rest : List Token} (hx : Accepts x l next p)
    (hused : used.map (·.lexeme) ∈ l) (hrest : next rest) :
    ∃ a, x (used ++ rest) = .ok (a, rest) ∧ p a :=
  hx used rest hused hrest

theorem ne_nil_of_mem_mul_mark {used : List Token} (h : used.map (·.lexeme) ∈ l * (mark m * k)) :
    used ≠ [] := by
  obtain ⟨first, more, rfl, -, hmore⟩ := exists_of_mem_mul h
  obtain ⟨place, more, rfl, -⟩ := exists_of_mem_single_mul hmore
  simp

/-! ### Sequences and choices -/

theorem Accepts.weaken (hx : Accepts x l next p) (h : ∀ ts, next' ts → next ts) :
    Accepts x l next' p :=
  fun used rest hused hrest => hx used rest hused (h rest hrest)

theorem Accepts.bind (hx : Accepts x l next p) (hf : ∀ a, p a → Accepts (f a) k next' q)
    (hnext : ∀ used rest, used.map (·.lexeme) ∈ k → next' rest → next (used ++ rest)) :
    Accepts (x >>= f) (l * k) next' q := by
  intro used rest hused hrest
  obtain ⟨first, more, rfl, hfirst, hmore⟩ := exists_of_mem_mul hused
  obtain ⟨a, hread, ha⟩ := hx first (more ++ rest) hfirst (hnext more rest hmore hrest)
  rw [List.append_assoc, run_bind hread]
  exact hf a ha more rest hmore hrest

theorem Accepts.bind_pure {g : α → β} (hx : Accepts x l next p) (h : ∀ a, p a → q (g a)) :
    Accepts (x >>= fun a => pure (g a)) l next q := by
  intro used rest hused hrest
  obtain ⟨a, hread, ha⟩ := hx used rest hused hrest
  exact ⟨g a, run_bind hread, h a ha⟩

theorem accepts_pure {a : α} (h : p a) : Accepts (pure a) 1 next p := by
  intro used rest hused _
  rw [List.map_eq_nil_iff.mp hused]
  exact ⟨a, rfl, h⟩

theorem Accepts.add (hl : Accepts x l next p) (hk : Accepts x k next p) :
    Accepts x (l + k) next p := by
  intro used rest hused hrest
  rcases (mem_add _ _ _).mp hused with hused | hused
  · exact hl used rest hused hrest
  · exact hk used rest hused hrest

/-- A phrase with something optional in front is one without it, or one with it. -/
theorem Accepts.optional_mul (hwithout : Accepts x k next p) (hwith : Accepts x (l * k) next p) :
    Accepts x (optional l * k) next p := by
  rw [Grammar.optional, add_mul, one_mul]
  exact hwithout.add hwith

/-! ### Single tokens -/

variable {stop : Location} {wanted : Wanted}

theorem Accepts.ident {g : Located String → Rule β} {name : String}
    (h : ∀ place, Accepts (g ⟨name, place⟩) k next q) :
    Accepts (run (ident stop wanted) >>= g) (word name * k) next q := by
  intro used rest hused hrest
  obtain ⟨place, more, rfl, hmore⟩ := exists_of_mem_single_mul hused
  exact h place more rest hmore hrest

theorem Accepts.literal {g : Located String → Rule β} {value : String}
    (h : ∀ place, Accepts (g ⟨value, place⟩) k next q) :
    Accepts (run (literal stop wanted) >>= g) (quoted value * k) next q := by
  intro used rest hused hrest
  obtain ⟨place, more, rfl, hmore⟩ := exists_of_mem_single_mul hused
  exact h place more rest hmore hrest

theorem Accepts.punct {g : Location → Rule β} (h : ∀ place, Accepts (g place) k next q) :
    Accepts (run (punct stop m wanted) >>= g) (mark m * k) next q := by
  intro used rest hused hrest
  obtain ⟨place, more, rfl, hmore⟩ := exists_of_mem_single_mul hused
  rw [List.cons_append, run_bind (run_punct_mark m wanted place _)]
  exact h place more rest hmore hrest

variable {g : Option Location → Rule β}

theorem Accepts.accept (h : ∀ place, Accepts (g (some place)) k next q) :
    Accepts (accept m >>= g) (mark m * k) next q := by
  intro used rest hused hrest
  obtain ⟨place, more, rfl, hmore⟩ := exists_of_mem_single_mul hused
  rw [List.cons_append, run_bind (accept_mark m place _)]
  exact h place more rest hmore hrest

theorem Accepts.accept_none (h : Accepts (g none) l next q) (hfree : Avoids m l next) :
    Accepts (Parser.accept m >>= g) l next q := by
  intro used rest hused hrest
  rw [run_bind (accept_of_ne (hfree used rest hused hrest))]
  exact h used rest hused hrest

theorem Accepts.ahead (h : ∀ place, Accepts (g (some place)) (mark m * k) next q) :
    Accepts (ahead m >>= g) (mark m * k) next q := by
  intro used rest hused hrest
  obtain ⟨place, more, rfl, hmore⟩ := exists_of_mem_single_mul hused
  rw [List.cons_append, run_bind (ahead_mark m place _)]
  exact h place (⟨.punct m, place⟩ :: more) rest hused hrest

theorem Accepts.ahead_none (h : Accepts (g none) l next q) (hfree : Avoids m l next) :
    Accepts (Parser.ahead m >>= g) l next q := by
  intro used rest hused hrest
  rw [run_bind (ahead_of_ne (hfree used rest hused hrest))]
  exact h used rest hused hrest

/-! ### Phrases that do not start with a mark -/

theorem avoids_single_mul {lexeme : Lexeme} (h : lexeme ≠ .punct m) :
    Avoids m (({[lexeme]} : Language Lexeme) * k) next := by
  intro used rest hused _ place more heq
  obtain ⟨place', more', rfl, -⟩ := exists_of_mem_single_mul hused
  cases heq
  exact h rfl

theorem avoids_word {w : String} : Avoids m (word w * k) next := avoids_single_mul (by simp)

theorem avoids_mark {m' : Punct} (h : m' ≠ m) : Avoids m (mark m' * k) next :=
  avoids_single_mul (by simpa using h)

theorem avoids_one (h : ∀ ts, next ts → Free m ts) : Avoids m 1 next := by
  intro used rest hused hrest
  rw [List.map_eq_nil_iff.mp hused]
  exact h rest hrest

theorem Avoids.add (hl : Avoids m l next) (hk : Avoids m k next) : Avoids m (l + k) next := by
  intro used rest hused hrest
  rcases (mem_add _ _ _).mp hused with hused | hused
  · exact hl used rest hused hrest
  · exact hk used rest hused hrest

theorem Avoids.optional_mul (hwithout : Avoids m k next) (hwith : Avoids m (l * k) next) :
    Avoids m (optional l * k) next := by
  rw [Grammar.optional, add_mul, one_mul]
  exact hwithout.add hwith

end

variable {stop : Location} {next : List Token → Prop} {m : Punct} {k : Language Lexeme}

/-- Any tokens may follow. -/
def anything : List Token → Prop := fun _ => True

/-! ## Attributes -/

theorem avoids_attributeItem (i : AttributeItem) : Avoids m (i.written * k) next := by
  obtain ⟨entry, place⟩ := i
  cases entry with
  | literal value => exact avoids_single_mul (by simp)
  | flag key => exact avoids_word
  | setting key value =>
    show Avoids m (word key * mark .equals * quoted value * k) next
    rw [mul_assoc, mul_assoc]
    exact avoids_word

theorem accepts_attributeItem (i : AttributeItem) :
    Accepts (run (attributeItem stop)) i.written (Free .equals) fun j => j.bare = i.bare := by
  obtain ⟨entry, place⟩ := i
  intro used rest hused hrest
  cases entry with
  | literal value =>
    obtain ⟨t, rfl, ht⟩ := List.map_eq_singleton_iff.mp hused
    obtain ⟨lexeme, place'⟩ := t
    cases ht
    exact ⟨⟨.literal value, place'⟩, rfl, rfl⟩
  | flag key =>
    obtain ⟨t, rfl, ht⟩ := List.map_eq_singleton_iff.mp hused
    obtain ⟨lexeme, place'⟩ := t
    cases ht
    refine ⟨⟨.flag key, place'⟩, ?_, rfl⟩
    rw [List.singleton_append, run_attributeItem_ident, run_bind (accept_of_ne hrest)]
    rfl
  | setting key value =>
    have hparts : used.map (·.lexeme) ∈ word key * (mark .equals * quoted value) := by
      rw [← mul_assoc]
      exact hused
    obtain ⟨place', more, rfl, hmore⟩ := exists_of_mem_single_mul hparts
    obtain ⟨place'', more, rfl, hvalue⟩ := exists_of_mem_single_mul hmore
    obtain ⟨t, rfl, ht⟩ := List.map_eq_singleton_iff.mp hvalue
    obtain ⟨lexeme, place⟩ := t
    cases ht
    refine ⟨⟨.setting key value, place'⟩, ?_, rfl⟩
    rw [List.cons_append, run_attributeItem_ident, List.cons_append,
      run_bind (accept_mark .equals place'' _)]
    rfl

theorem accepts_attributeItems (items : List AttributeItem) :
    Accepts (run (attributeItems stop)) (writtenItems items) anything fun others =>
      others.map AttributeItem.bare = items.map AttributeItem.bare := by
  induction items with
  | nil =>
    rw [run_attributeItems, writtenItems, ← mul_one (mark .rightBracket)]
    exact .accept fun place => accepts_pure rfl
  | cons item items ih =>
    have hcons : ∀ {i : AttributeItem} {others : List AttributeItem}, i.bare = item.bare →
        others.map AttributeItem.bare = items.map AttributeItem.bare →
        (i :: others).map AttributeItem.bare = (item :: items).map AttributeItem.bare := by
      intro i others hi hothers
      rw [List.map_cons, List.map_cons, hi, hothers]
    rw [run_attributeItems, writtenItems_of_ne_nil (List.cons_ne_nil item items), List.map_cons]
    by_cases hnil : items = []
    · subst hnil
      rw [List.map_nil, commaSeparated_singleton, ← mul_one (mark .rightBracket)]
      refine .accept_none ?_ (avoids_attributeItem item)
      refine (accepts_attributeItem item).bind (fun i hi => .optional_mul ?_ ?_)
        (Avoids.optional_mul (avoids_mark (by decide)) (avoids_mark (by decide)))
      · refine .accept_none (.punct fun place => accepts_pure (hcons hi rfl))
          (avoids_mark (by decide))
      · rw [mul_one]
        exact .accept fun place => ih.bind_pure fun others hothers => hcons hi hothers
    · rw [commaSeparated_cons (by simpa using hnil), mul_assoc, mul_assoc]
      refine .accept_none ?_ (avoids_attributeItem item)
      refine (accepts_attributeItem item).bind (fun i hi => ?_) (avoids_mark (by decide))
      rw [writtenItems_of_ne_nil hnil] at ih
      exact .accept fun place => ih.bind_pure fun others hothers => hcons hi hothers

theorem accepts_bracketed {a : Attribute} (ha : a.WellFormed) :
    Accepts (run (bracketed stop)) a.written anything fun b => b.bare = a.bare := by
  rw [run_bracketed, Attribute.written, mul_assoc, mul_assoc, ← writtenItems_of_ne_nil ha,
    ← mul_one (writtenItems a.items)]
  refine .punct fun opening => ?_
  refine (accepts_attributeItems a.items).bind (fun items hitems => ?_) fun _ _ _ _ => trivial
  have hne : ¬ items.isEmpty = true := by
    intro hempty
    rw [List.isEmpty_iff.mp hempty] at hitems
    exact ha (List.map_eq_nil_iff.mp hitems.symm)
  rw [if_neg hne]
  refine accepts_pure ?_
  rw [Attribute.bare, Attribute.bare, hitems]

theorem accepts_attributes {attrs : List Attribute} (hattrs : ∀ a ∈ attrs, a.WellFormed) :
    Accepts (runOptional (attributes stop)) (writtenAttributes attrs) (Free .leftBracket)
      fun others => others.map Attribute.bare = attrs.map Attribute.bare := by
  induction attrs with
  | nil =>
    rw [run_attributes]
    exact .ahead_none (accepts_pure rfl) (avoids_one fun _ h => h)
  | cons a attrs ih =>
    obtain ⟨ha, hattrs⟩ := List.forall_mem_cons.mp hattrs
    have hcons : writtenAttributes (a :: attrs) = a.written * writtenAttributes attrs := by
      rw [writtenAttributes, List.map_cons, List.prod_cons]
      rfl
    have hopens : a.written * writtenAttributes attrs =
        mark .leftBracket * (commaSeparated (a.items.map AttributeItem.written) *
          (Grammar.optional (mark .comma) * (mark .rightBracket * writtenAttributes attrs))) := by
      rw [Attribute.written, mul_assoc, mul_assoc, mul_assoc]
    rw [run_attributes, hcons, hopens]
    refine .ahead fun place => ?_
    rw [← hopens]
    refine (accepts_bracketed ha).bind (fun first hfirst => ?_) fun _ _ _ _ => trivial
    refine (ih hattrs).bind_pure fun others hothers => ?_
    rw [List.map_cons, List.map_cons, hfirst, hothers]

theorem avoids_attributes {attrs : List Attribute} (hm : m ≠ .leftBracket)
    (hk : Avoids m k next) : Avoids m (writtenAttributes attrs * k) next := by
  cases attrs with
  | nil =>
    rw [writtenAttributes, List.map_nil, List.prod_nil, one_mul]
    exact hk
  | cons a attrs =>
    rw [writtenAttributes, List.map_cons, List.prod_cons, Attribute.written, mul_assoc, mul_assoc,
      mul_assoc, mul_assoc]
    exact avoids_mark hm.symm

/-! ## Type expressions -/

theorem avoids_type {t : TypeExpr} (hm : m ≠ .question) : Avoids m (t.written * k) next := by
  obtain ⟨name, isOptional, args, place⟩ := t
  rw [TypeExpr.written_mk, mul_assoc, mul_assoc]
  cases isOptional with
  | false =>
    rw [given, if_neg (by decide), one_mul]
    exact avoids_word
  | true =>
    rw [given, if_pos rfl]
    exact avoids_mark hm.symm

/-- The arguments of a type are read back if each of them is. -/
theorem accepts_namedType {name : String} {args : List TypeExpr} (start : Location)
    (isOptional : Bool)
    (hargs : args ≠ [] → Accepts (run (typeArgs stop))
      (commaSeparated (args.map TypeExpr.written) * mark .rightAngle) anything
      fun others => bareArgs others = bareArgs args) :
    Accepts (run (namedType stop start isOptional)) (writtenNamed name args) (Free .leftAngle)
      fun t => t.bare = ⟨name, isOptional, bareArgs args, default⟩ := by
  rw [run_namedType, writtenNamed, writtenArgs_eq_map]
  refine .ident fun place => ?_
  cases args with
  | nil => exact .accept_none (accepts_pure rfl) (avoids_one fun _ h => h)
  | cons t more =>
    rw [angled_of_ne_nil (by simp), mul_assoc]
    refine .accept fun place => ?_
    have hfirst : Avoids .rightAngle
        (commaSeparated ((t :: more).map TypeExpr.written) * mark .rightAngle) (Free .leftAngle) := by
      rw [List.map_cons, commaSeparated, mul_assoc]
      exact avoids_type (by decide)
    refine .ahead_none ?_ hfirst
    refine ((hargs (List.cons_ne_nil t more)).weaken fun _ _ => trivial).bind_pure fun others h => ?_
    rw [TypeExpr.bare, h]

mutual

theorem accepts_typeExpr : ∀ t : TypeExpr,
    Accepts (run (typeExpr stop)) t.written (Free .leftAngle) fun u => u.bare = t.bare
  | ⟨name, isOptional, args, place⟩ => by
    have hargs := accepts_typeArgs args
    intro used rest hused hrest
    rw [run_typeExpr]
    rw [TypeExpr.written_mk, mul_assoc] at hused
    rw [TypeExpr.bare]
    refine Accepts.agree ?_ hused hrest
    cases isOptional with
    | false =>
      rw [given, if_neg (by decide), one_mul]
      exact .accept_none (accepts_namedType _ false hargs) avoids_word
    | true =>
      rw [given, if_pos rfl]
      exact .accept fun place => accepts_namedType place true hargs

theorem accepts_typeArgs : ∀ args : List TypeExpr, args ≠ [] →
    Accepts (run (typeArgs stop)) (commaSeparated (args.map TypeExpr.written) * mark .rightAngle)
      anything fun others => bareArgs others = bareArgs args
  | [], h => absurd rfl h
  | t :: more, _ => by
    have hfirst := accepts_typeExpr t
    have hmore := accepts_typeArgs more
    rw [run_typeArgs, List.map_cons]
    by_cases hnil : more = []
    · subst hnil
      rw [List.map_nil, commaSeparated_singleton, ← mul_one (mark .rightAngle)]
      refine hfirst.bind (fun u hu => ?_) (avoids_mark (by decide))
      refine .accept_none (.punct fun place => accepts_pure ?_) (avoids_mark (by decide))
      simp only [bareArgs, hu]
    · rw [commaSeparated_cons (by simpa using hnil), mul_assoc, mul_assoc]
      refine hfirst.bind (fun u hu => ?_) (avoids_mark (by decide))
      refine .accept fun place => (hmore hnil).bind_pure fun others hothers => ?_
      simp only [bareArgs, hu, hothers]

end

/-! ## Blocks -/

/-- What follows a member of a block starts with the next member, a comma or the closing brace. -/
def MemberNext (ts : List Token) : Prop :=
  ∀ m, m ≠ .leftBracket → m ≠ .comma → m ≠ .rightBrace → Free m ts

theorem accepts_separator (separator : Separator) :
    Accepts separator.rule separator.written (Free .comma) fun _ => True := by
  cases separator with
  | nothing => exact accepts_pure trivial
  | optionalComma =>
    show Accepts (accept .comma >>= fun _ => pure ()) (Grammar.optional (mark .comma)) _ _
    rw [← mul_one (Grammar.optional (mark .comma))]
    refine .optional_mul ?_ ?_
    · exact .accept_none (accepts_pure trivial) (avoids_one fun _ h => h)
    · exact .accept fun place => accepts_pure trivial

section

variable {α : Type} {rule : (ts : List Token) → Except SyntaxError (Reading ts α)}
  {separator : Separator} {unclosed : SyntaxError} {w : α → Language Lexeme} {bare : α → α}

/-- Members start with a name or an attribute. -/
def StartsMember (l : Language Lexeme) : Prop :=
  ∀ m k next, m ≠ .leftBracket → Avoids m (l * k) next

theorem avoids_members {as : List α} (hstart : ∀ a ∈ as, StartsMember (w a))
    (hbracket : m ≠ .leftBracket) (hbrace : m ≠ .rightBrace) :
    Avoids m ((as.map fun a => w a * separator.written).prod * (mark .rightBrace * k)) next := by
  cases as with
  | nil =>
    rw [List.map_nil, List.prod_nil, one_mul]
    exact avoids_mark hbrace.symm
  | cons a as =>
    rw [List.map_cons, List.prod_cons, mul_assoc, mul_assoc]
    exact hstart a List.mem_cons_self m _ next hbracket

theorem avoids_separator (hcomma : m ≠ .comma) (hk : Avoids m k next) :
    Avoids m (separator.written * k) next := by
  cases separator with
  | nothing =>
    rw [Separator.written, one_mul]
    exact hk
  | optionalComma => exact .optional_mul hk (avoids_mark hcomma.symm)

theorem accepts_members {as : List α}
    (hrule : ∀ a ∈ as, Accepts (run rule) (w a) MemberNext fun b => bare b = bare a)
    (hstart : ∀ a ∈ as, StartsMember (w a)) :
    Accepts (run (members rule separator unclosed))
      ((as.map fun a => w a * separator.written).prod * (mark .rightBrace * 1)) anything
      fun bs => bs.map bare = as.map bare := by
  induction as with
  | nil =>
    intro used rest hused hrest
    rw [List.map_nil, List.prod_nil, one_mul] at hused
    obtain ⟨place, more, rfl, hmore⟩ := exists_of_mem_single_mul hused
    rw [List.cons_append, run_members_cons, ← List.cons_append]
    refine Accepts.agree (.accept fun place => accepts_pure rfl) hused hrest
  | cons a as ih =>
    obtain ⟨ha, has⟩ := List.forall_mem_cons.mp hrule
    obtain ⟨hstartA, hstartAs⟩ := List.forall_mem_cons.mp hstart
    intro used rest hused hrest
    obtain ⟨t, more, rfl⟩ := List.exists_cons_of_ne_nil (ne_nil_of_mem_mul_mark hused)
    rw [List.map_cons, List.prod_cons, mul_assoc, mul_assoc] at hused
    rw [List.cons_append, run_members_cons, ← List.cons_append]
    refine Accepts.agree (.accept_none ?_ (hstartA _ _ _ (by decide))) hused hrest
    refine ha.bind (fun b hb => ?_) fun used rest hused hrest m hbracket hcomma hbrace =>
      avoids_separator hcomma (avoids_members hstartAs hbracket hbrace) used rest hused hrest
    refine (accepts_separator separator).bind (fun _ _ => ?_) (avoids_members hstartAs (by decide)
      (by decide))
    refine (ih has hstartAs).bind_pure fun bs hbs => ?_
    rw [List.map_cons, List.map_cons, hb, hbs]

/-- Members with nothing between them, whatever follows each. -/
theorem accepts_members_nothing {as : List α}
    (hrule : ∀ a ∈ as, Accepts (run rule) (w a) anything fun b => bare b = bare a)
    (hstart : ∀ a ∈ as, StartsMember (w a)) :
    Accepts (run (members rule .nothing unclosed)) ((as.map w).prod * (mark .rightBrace * 1))
      anything fun bs => bs.map bare = as.map bare := by
  have hlanguage : as.map w = as.map fun a => w a * Separator.nothing.written := by
    simp only [Separator.written, mul_one]
  rw [hlanguage]
  exact accepts_members (fun a ha => (hrule a ha).weaken fun _ _ => trivial) hstart

end

theorem startsMember_field (f : Field) : StartsMember f.written := by
  intro m k next hm
  rw [Field.written, mul_assoc, mul_assoc, mul_assoc]
  exact avoids_attributes hm avoids_word

theorem accepts_field {f : Field} (hf : f.WellFormed) :
    Accepts (run (field stop)) f.written MemberNext fun g => g.bare = f.bare := by
  rw [run_field, Field.written, mul_assoc, mul_assoc]
  refine (accepts_attributes hf).bind (fun attrs hattrs => ?_) avoids_word
  refine .ident fun place => .punct fun _ => ?_
  refine Accepts.weaken ?_ fun ts (h : MemberNext ts) =>
    h .leftAngle (by decide) (by decide) (by decide)
  refine (accepts_typeExpr f.type).bind_pure fun type htype => ?_
  rw [Field.bare, Field.bare, hattrs, htype]

theorem accepts_payload (name : String) (type : Option TypeExpr) :
    Accepts (runOptional (payload stop name)) (writtenPayload type) MemberNext
      fun t => t.map TypeExpr.bare = type.map TypeExpr.bare := by
  rw [run_payload]
  cases type with
  | none =>
    refine .accept_none (.ahead_none (accepts_pure rfl) (avoids_one fun ts h => ?_))
      (avoids_one fun ts h => ?_)
    · exact h .leftBrace (by decide) (by decide) (by decide)
    · exact h .leftParen (by decide) (by decide) (by decide)
  | some type =>
    rw [writtenPayload, mul_assoc, ← mul_one (mark .rightParen)]
    refine .accept fun place => ?_
    refine (accepts_typeExpr type).bind (fun t ht => ?_) (avoids_mark (by decide))
    refine .punct fun _ => accepts_pure ?_
    rw [Option.map_some, Option.map_some, ht]

theorem startsMember_variant (v : Variant) : StartsMember v.written := by
  intro m k next hm
  rw [Variant.written, mul_assoc, mul_assoc]
  exact avoids_attributes hm avoids_word

theorem accepts_variant {v : Variant} (hv : v.WellFormed) :
    Accepts (run (variant stop)) v.written MemberNext fun u => u.bare = v.bare := by
  rw [run_variant, Variant.written, mul_assoc]
  refine (accepts_attributes hv).bind (fun attrs hattrs => ?_) avoids_word
  refine .ident fun place => ?_
  refine (accepts_payload v.name v.payload).bind_pure fun type htype => ?_
  rw [Variant.bare, Variant.bare, hattrs, htype]

/-! ## Items -/

theorem accepts_fields {owner : String} {fs : List Field} (hfs : ∀ f ∈ fs, f.WellFormed) :
    Accepts (run (fields stop owner)) (braced (writtenMembers Field.written fs)) anything
      fun gs => gs.map Field.bare = fs.map Field.bare := by
  rw [run_fields, braced, mul_assoc, ← mul_one (mark .rightBrace)]
  exact .punct fun opening => accepts_members (fun f hf => accepts_field (hfs f hf))
    fun f _ => startsMember_field f

theorem accepts_roleTag (role : Option Role) :
    Accepts (runOptional (roleTag stop)) (writtenRole role) (Free .leftAngle) fun r => r = role := by
  rw [run_roleTag]
  cases role with
  | none => exact .accept_none (accepts_pure rfl) (avoids_one fun _ h => h)
  | some role =>
    rw [writtenRole, mul_assoc, ← mul_one (mark .rightAngle)]
    refine .accept fun place => .ident fun place => ?_
    simp only [Role.ofName?_name]
    exact .punct fun _ => accepts_pure rfl

theorem accepts_iSup_mul {α : Type} {ι : Sort*} {x : Rule α} {l : ι → Language Lexeme} {p : α → Prop}
    (h : ∀ i, Accepts x (l i * k) next p) : Accepts x ((⨆ i, l i) * k) next p := by
  intro used rest hused hrest
  rw [iSup_mul] at hused
  obtain ⟨i, hi⟩ := mem_iSup.mp hused
  exact h i used rest hi hrest

theorem accepts_roleStruct {s : Struct} {role : Role} {attrs : List Attribute} (head : Location)
    (hrole : s.role = some role ∧ s.name = role.name) (hfields : ∀ f ∈ s.fields, f.WellFormed)
    (hattrs : attrs.map Attribute.bare = s.attributes.map Attribute.bare) :
    Accepts (run (roleStruct stop attrs role head))
      (Grammar.optional (mark .colon) * braced (writtenMembers Field.written s.fields)) anything
      fun j => j.bare = (Item.struct s).bare := by
  rw [run_roleStruct]
  have hbare : ∀ fields : List Field, fields.map Field.bare = s.fields.map Field.bare →
      (Item.struct ⟨role.name, some role, fields, attrs, head⟩).bare = (Item.struct s).bare := by
    intro fields h
    rw [Item.bare, Item.bare, h, hattrs, hrole.1, hrole.2]
  refine .optional_mul (.accept_none ?_ ?_) (.accept fun place => ?_)
  · exact (accepts_fields hfields).bind_pure hbare
  · rw [braced, mul_assoc]
    exact avoids_mark (by decide)
  · exact (accepts_fields hfields).bind_pure hbare

theorem accepts_namedStruct {s : Struct} {attrs : List Attribute} (head : Location)
    (hfields : ∀ f ∈ s.fields, f.WellFormed)
    (hattrs : attrs.map Attribute.bare = s.attributes.map Attribute.bare) :
    Accepts (run (namedStruct stop attrs head))
      (word s.name * (writtenRole s.role * braced (writtenMembers Field.written s.fields))) anything
      fun j => j.bare = (Item.struct s).bare := by
  rw [run_namedStruct]
  refine .ident fun place => (accepts_roleTag s.role).bind (fun role hrole => ?_) ?_
  · refine (accepts_fields hfields).bind_pure fun fields h => ?_
    rw [Item.bare, Item.bare, h, hattrs, hrole]
  · rw [braced, mul_assoc]
    exact avoids_mark (by decide)

theorem accepts_enumeration {e : Enum} {attrs : List Attribute} (head : Location)
    (hvariants : ∀ v ∈ e.variants, v.WellFormed)
    (hattrs : attrs.map Attribute.bare = e.attributes.map Attribute.bare) :
    Accepts (run (enumeration stop attrs head))
      (word e.name * braced (writtenMembers Variant.written e.variants)) anything
      fun j => j.bare = (Item.enum e).bare := by
  rw [run_enumeration, braced, mul_assoc, ← mul_one (mark .rightBrace)]
  refine .ident fun place => .punct fun opening => ?_
  refine (accepts_members (fun v hv => accepts_variant (hvariants v hv))
    fun v _ => startsMember_variant v).bind_pure fun variants h => ?_
  rw [Item.bare, Item.bare, h, hattrs]

/-- The head word and what follows it. -/
theorem accepts_body {i : Item} (hi : i.MembersWellFormed) {attrs : List Attribute}
    (hattrs : attrs.map Attribute.bare = i.attributes.map Attribute.bare) :
    Accepts (run (ident stop .itemHead) >>= fun head => run (itemBody stop attrs head)) i.body
      anything fun j => j.bare = i.bare := by
  have hstruct : Role.ofName? "struct" = none := by decide
  have henum : Role.ofName? "enum" = none := by decide
  cases i with
  | struct s =>
    rw [Item.body, add_mul, Struct.roleHead]
    refine .add (accepts_iSup_mul fun role => accepts_iSup_mul fun hrole => ?_) ?_
    · rw [mul_assoc]
      refine .ident fun place => ?_
      simp only [run_itemBody, Role.ofName?_name]
      exact accepts_roleStruct place hrole hi hattrs
    · rw [mul_assoc, mul_assoc]
      refine .ident fun place => ?_
      simp only [run_itemBody, hstruct, if_true]
      exact accepts_namedStruct place hi hattrs
  | enum e =>
    rw [Item.body, mul_assoc]
    refine .ident fun place => ?_
    simp only [run_itemBody, henum]
    rw [if_neg (by decide), if_pos trivial]
    exact accepts_enumeration place hi hattrs

theorem avoids_iSup_mul {ι : Sort*} {l : ι → Language Lexeme}
    (h : ∀ i, Avoids m (l i * k) next) : Avoids m ((⨆ i, l i) * k) next := by
  intro used rest hused hrest
  rw [iSup_mul] at hused
  obtain ⟨i, hi⟩ := mem_iSup.mp hused
  exact h i used rest hi hrest

theorem avoids_body {i : Item} : Avoids m (i.body * k) next := by
  cases i with
  | struct s =>
    rw [Item.body, Struct.roleHead, add_mul, add_mul, mul_assoc]
    refine .add (avoids_iSup_mul fun role => avoids_iSup_mul fun _ => ?_) ?_
    · rw [mul_assoc]
      exact avoids_word
    · rw [mul_assoc, mul_assoc, mul_assoc]
      exact avoids_word
  | enum e =>
    rw [Item.body, mul_assoc, mul_assoc]
    exact avoids_word

theorem startsMember_item (i : Item) : StartsMember i.written := by
  intro m k next hm
  rw [Item.written, mul_assoc]
  exact avoids_attributes hm avoids_body

theorem accepts_item {i : Item} (hi : i.WellFormed) :
    Accepts (run (item stop)) i.written anything fun j => j.bare = i.bare := by
  rw [run_item, Item.written]
  refine (accepts_attributes hi.1).bind (fun attrs hattrs => accepts_body hi.2 hattrs) ?_
  rw [← mul_one i.body]
  exact avoids_body

/-! ## Methods and endpoints -/

theorem startsMember_method (e : Method) : StartsMember e.written := by
  intro m k next _
  rw [Method.written, mul_assoc, mul_assoc, mul_assoc]
  exact avoids_word

theorem accepts_verb (v : Verb) :
    Accepts (run (verb stop)) (word v.name) anything fun u => u.cause = v := by
  rw [run_verb, ← mul_one (word v.name)]
  refine .ident fun place => ?_
  simp only [Verb.ofName?_name]
  exact accepts_pure rfl

theorem accepts_path {t : PathTemplate} (ht : PathTemplate.Spells t.segments t.raw.toList) :
    Accepts (run (path stop)) (quoted t.raw) anything fun u => u.cause = t := by
  rw [run_path, ← mul_one (quoted t.raw)]
  refine .literal fun place => ?_
  simp only [PathTemplate.parse_eq_ok_iff.mpr ⟨rfl, ht⟩]
  exact accepts_pure rfl

theorem accepts_method {e : Method} (he : e.WellFormed) :
    Accepts (run (method stop)) e.written anything fun g => g.bare = e.bare := by
  rw [run_method, Method.written, mul_assoc, mul_assoc, braced, mul_assoc,
    ← mul_one (mark .rightBrace)]
  refine (accepts_verb e.verb).bind (fun v hv => ?_) fun _ _ _ _ => trivial
  refine (accepts_path he.1).bind (fun t ht => ?_) fun _ _ _ _ => trivial
  refine .punct fun _ => .punct fun opening => ?_
  refine (accepts_members_nothing (fun i hi => accepts_item (he.2 i hi))
    fun i _ => startsMember_item i).bind_pure fun items h => ?_
  rw [Method.bare, Method.bare, h, hv, ht]

/-- A name is read before the colon, and `pub` before a name. -/
theorem accepts_visibility {β : Type} {g : Bool → Rule β} {q : β → Prop} {name : String}
    (isPublic : Bool) (h : Accepts (g isPublic) (word name * (mark .colon * k)) next q) :
    Accepts (runOptional (fun ts => .ok (visibility ts)) >>= g)
      (given isPublic (word "pub") * (word name * (mark .colon * k))) next q := by
  intro used rest hused hrest
  cases isPublic with
  | true =>
    obtain ⟨place, more, rfl, hmore⟩ := exists_of_mem_single_mul hused
    have hread : runOptional (fun ts => .ok (visibility ts)) (⟨.ident "pub", place⟩ :: more ++ rest) =
        .ok (true, more ++ rest) := by
      obtain ⟨place', more, rfl, -⟩ := exists_of_mem_single_mul hmore
      rfl
    rw [run_bind hread]
    exact h more rest hmore hrest
  | false =>
    rw [given, if_neg (by decide), one_mul] at hused
    have hread : runOptional (fun ts => .ok (visibility ts)) (used ++ rest) =
        .ok (false, used ++ rest) := by
      obtain ⟨place, more, rfl, hmore⟩ := exists_of_mem_single_mul hused
      obtain ⟨place', more, rfl, -⟩ := exists_of_mem_single_mul hmore
      rfl
    rw [run_bind hread]
    exact h used rest hused hrest

theorem accepts_endpoint {e : Endpoint} (he : e.WellFormed) :
    Accepts (run (endpoint stop)) e.written anything fun d => d.bare = e.bare := by
  rw [run_endpoint, Endpoint.written, ← mul_one (mark .rightBracket), mul_assoc, mul_assoc,
    mul_assoc, mul_assoc, braced, mul_assoc, mul_assoc]
  refine .punct fun opening => accepts_visibility e.isPublic ?_
  refine .ident fun place => .punct fun _ => .punct fun _ => ?_
  rw [← mul_one (mark .rightBrace), ← mul_assoc]
  refine (accepts_members_nothing (fun m hm => accepts_method (he m hm))
    fun m _ => startsMember_method m).bind (fun methods h => ?_) fun _ _ _ _ => trivial
  refine .punct fun _ => accepts_pure ?_
  rw [Endpoint.bare, Endpoint.bare, h]

/-! ## Blocks one after another -/

theorem avoids_endpoint (e : Endpoint) : Avoids .comma (e.written * k) next := by
  rw [Endpoint.written, mul_assoc, mul_assoc, mul_assoc, mul_assoc, mul_assoc]
  exact avoids_mark (by decide)

theorem firstBlock_endpoint {e : Endpoint} (he : e.WellFormed) {ts : List Token}
    (h : ts.map (·.lexeme) ∈ e.written * k) :
    ∃ d more, d.bare = e.bare ∧ more.map (·.lexeme) ∈ k ∧
      firstBlock stop ts = .ok d :: blocks stop true more := by
  obtain ⟨first, more, rfl, hfirst, hmore⟩ := exists_of_mem_mul h
  obtain ⟨d, hread, hd⟩ := accepts_endpoint he first more hfirst trivial
  refine ⟨d, more, hd, hmore, ?_⟩
  cases hts : first ++ more with
  | nil =>
    rw [hts] at hread
    cases hread
  | cons t rest =>
    rw [firstBlock, ← hts, hread]

/-- What the outcomes are, up to locations. -/
def ReadBack (outcomes : List (Except SyntaxError Endpoint)) (es : List Endpoint) : Prop :=
  outcomes.map (·.map Endpoint.bare) = es.map fun e => .ok e.bare

theorem ReadBack.cons {outcomes : List (Except SyntaxError Endpoint)} {es : List Endpoint}
    {d e : Endpoint} (hd : d.bare = e.bare) (h : ReadBack outcomes es) :
    ReadBack (.ok d :: outcomes) (e :: es) := by
  rw [ReadBack, List.map_cons, List.map_cons, Except.map, hd, h]

theorem readBack_blocks {es : List Endpoint} (hes : ∀ e ∈ es, e.WellFormed) {ts : List Token}
    (h : ts.map (·.lexeme) ∈ (es.map (Grammar.optional (mark .comma) * ·.written)).prod *
      Grammar.optional (mark .comma)) : ReadBack (blocks stop true ts) es := by
  induction es generalizing ts with
  | nil =>
    rw [List.map_nil, List.prod_nil, one_mul] at h
    rcases (mem_add _ _ _).mp h with h | h
    · rw [List.map_eq_nil_iff.mp h, blocks_nil]
      rfl
    · obtain ⟨⟨lexeme, place⟩, rfl, hlexeme⟩ := List.map_eq_singleton_iff.mp h
      cases hlexeme
      rw [blocks_comma]
      rfl
  | cons e es ih =>
    obtain ⟨he, hes⟩ := List.forall_mem_cons.mp hes
    have hfirst : ∀ {us : List Token}, us.map (·.lexeme) ∈ e.written *
        ((es.map (Grammar.optional (mark .comma) * ·.written)).prod *
          Grammar.optional (mark .comma)) → ReadBack (firstBlock stop us) (e :: es) := by
      intro us hus
      obtain ⟨d, more, hd, hmore, hblock⟩ := firstBlock_endpoint he hus
      rw [hblock]
      exact (ih hes hmore).cons hd
    rw [List.map_cons, List.prod_cons, mul_assoc, mul_assoc, Grammar.optional, add_mul,
      one_mul] at h
    rcases (mem_add _ _ _).mp h with h | h
    · have hcomma := avoids_endpoint e ts [] h (show anything [] from trivial)
      rw [List.append_nil] at hcomma
      rw [blocks_of_ne hcomma]
      exact hfirst h
    · obtain ⟨place, more, rfl, hmore⟩ := exists_of_mem_single_mul h
      rw [blocks_comma]
      exact hfirst hmore

theorem readBack_firstBlock {es : List Endpoint} (hes : ∀ e ∈ es, e.WellFormed) {ts : List Token}
    (h : ts.map (·.lexeme) ∈ writtenEndpoints es) : ReadBack (firstBlock stop ts) es := by
  cases es with
  | nil =>
    rw [List.map_eq_nil_iff.mp h]
    rfl
  | cons e es =>
    obtain ⟨he, hes⟩ := List.forall_mem_cons.mp hes
    rw [writtenEndpoints_cons] at h
    obtain ⟨d, more, hd, hmore, hblock⟩ := firstBlock_endpoint he h
    rw [hblock]
    exact (readBack_blocks hes hmore).cons hd

theorem ReadBack.errors {outcomes : List (Except SyntaxError Endpoint)} {es : List Endpoint}
    (h : ReadBack outcomes es) : outcomes.filterMap errorValue? = [] ∧
      (outcomes.filterMap okValue?).map Endpoint.bare = es.map Endpoint.bare := by
  induction outcomes generalizing es with
  | nil =>
    cases es with
    | nil => exact ⟨rfl, rfl⟩
    | cons e es => cases h
  | cons result outcomes ih =>
    cases es with
    | nil => cases h
    | cons e es =>
      rw [ReadBack, List.map_cons, List.map_cons, List.cons.injEq] at h
      obtain ⟨hfirst, hrest⟩ := h
      obtain ⟨herrors, hvalues⟩ := ih hrest
      cases result with
      | error error => cases hfirst
      | ok d =>
        have hd : d.bare = e.bare := Except.ok.inj hfirst
        exact ⟨herrors, by simp [okValue?, hvalues, hd]⟩

end Parser

/-- What is written of well-formed endpoints is read back as these endpoints. -/
theorem ofTokens_written {es : List Endpoint} (hes : ∀ e ∈ es, e.WellFormed) {list : TokenList}
    (h : list.tokens.map (·.lexeme) ∈ writtenEndpoints es) (unit : String) :
    (ofTokens unit list).errors = [] ∧
      (ofTokens unit list).source.endpoints.map Endpoint.bare = es.map Endpoint.bare := by
  have hblocks : Parser.blocks list.stop false list.tokens =
      Parser.firstBlock list.stop list.tokens := Parser.blocks_eq_firstBlock false list.tokens
  simp only [ofTokens, hblocks]
  exact (Parser.readBack_firstBlock hes h).errors

end Tree
end EndpointDsl
