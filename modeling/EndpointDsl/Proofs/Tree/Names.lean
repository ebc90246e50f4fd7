import EndpointDsl.Proofs.Lists
import EndpointDsl.Proofs.Schema.Relocation
import EndpointDsl.Proofs.Schema.Resolution
import EndpointDsl.Proofs.Source.Places
import EndpointDsl.Proofs.Text.NullFree
import EndpointDsl.Proofs.Tree.Soundness

/-!
The names and texts of a schema that was read from a source.

Every name of a tree is a word in every way to write the tree, and every path and every wire name is
a string there; so they are among the lexemes that were read.  The lexer takes nothing but
identifiers for words.  The schema takes names and texts from the tree as they are.
-/

namespace EndpointDsl

open Text

/-! ## Lexemes of a text -/

/-- A word is an identifier, and a string has no null character. -/
def Lexeme.Clean : Lexeme → Prop
  | .ident name => isIdent name.toList = true
  | .literal value => NullFree value
  | .punct _ => True

/-- A word is an identifier. -/
def Lexeme.Spelled : Lexeme → Prop
  | .ident name => isIdent name.toList = true
  | _ => True

/-- The value of a string. -/
def Lexeme.literal? : Lexeme → Option String
  | .literal value => some value
  | _ => none

namespace Lexer

/-- No string literal of the text holds a null character. -/
def LiteralsNullFree (text unit : String) : Prop :=
  ∀ list, tokenize text unit = .ok list →
    ∀ value, .literal value ∈ list.tokens.map (·.lexeme) → NullFree value

theorem literalsNullFree_of_tokenize {text unit : String} {values : List String}
    (h : (tokenize text unit).map (fun list =>
      (list.tokens.map (·.lexeme)).filterMap Lexeme.literal?) = .ok values)
    (hvalues : ∀ value ∈ values, NullFree value) : LiteralsNullFree text unit := by
  intro list hlist value hvalue
  rw [hlist] at h
  refine hvalues value ?_
  rw [← Except.ok.inj h]
  exact List.mem_filterMap.mpr ⟨_, hvalue, rfl⟩

/-- Every word is an identifier. -/
def WordsAreIdents (tokens : List Token) : Prop :=
  ∀ name, .ident name ∈ tokens.map (·.lexeme) → isIdent name.toList = true

theorem wordsAreIdents_cons {lexeme : Lexeme} {here : Location} {tokens : List Token}
    {x : Except SyntaxError (List Token)} (h : x.map (⟨lexeme, here⟩ :: ·) = .ok tokens)
    (hrest : ∀ {more}, x = .ok more → WordsAreIdents more)
    (hfirst : ∀ name, lexeme = .ident name → isIdent name.toList = true) :
    WordsAreIdents tokens := by
  obtain ⟨more, hmore, rfl⟩ := map_eq_ok_iff.mp h
  intro name hname
  rcases List.mem_cons.mp hname with heq | hname
  · exact hfirst name heq.symm
  · exact hrest hmore name hname

theorem wordsAreIdents_of_tokensFrom {here : Location} {cs : List Char} {tokens : List Token}
    (h : tokensFrom here cs = .ok tokens) : WordsAreIdents tokens := by
  fun_induction tokensFrom here cs generalizing tokens
  case case1 => cases h; exact fun _ hname => nomatch hname
  case case2 ih => exact ih h
  case case3 => cases h
  case case4 ih => exact wordsAreIdents_cons h ih (by rintro _ ⟨⟩)
  case case5 ih => exact wordsAreIdents_cons h ih (by rintro _ ⟨⟩)
  case case6 ih => exact ih h
  case case7 hstart name _ ih =>
    refine wordsAreIdents_cons h ih ?_
    rintro _ ⟨⟩
    rw [String.toList_ofList, isIdent, hstart, Bool.true_and]
    exact List.all_eq_true.mpr fun c hc => List.mem_takeWhile_imp hc
  case case8 ih => exact wordsAreIdents_cons h ih (by rintro _ ⟨⟩)
  case case9 => cases h
  case case10 ih => exact wordsAreIdents_cons h ih (by rintro _ ⟨⟩)

theorem spelled_of_tokenize {text unit : String} {list : TokenList}
    (h : tokenize text unit = .ok list) : ∀ a ∈ list.tokens.map (·.lexeme), a.Spelled := by
  obtain ⟨tokens, hfrom, rfl⟩ := map_eq_ok_iff.mp h
  intro a ha
  cases a with
  | ident name => exact wordsAreIdents_of_tokensFrom hfrom name ha
  | literal value => trivial
  | punct mark => trivial

theorem clean_of_tokenize {text unit : String} {list : TokenList}
    (hnull : LiteralsNullFree text unit) (h : tokenize text unit = .ok list) :
    ∀ a ∈ list.tokens.map (·.lexeme), a.Clean := by
  intro a ha
  cases a with
  | ident name => exact spelled_of_tokenize h _ ha
  | literal value => exact hnull _ h value ha
  | punct mark => trivial

end Lexer

/-! ## Phrases of good lexemes -/

namespace Grammar

/-- Some phrase of the language has nothing but good lexemes. -/
def Meets (good : Lexeme → Prop) (l : Language Lexeme) : Prop := ∃ x ∈ l, ∀ a ∈ x, good a

/-- Some phrase of the language has nothing but clean lexemes. -/
def HasClean (l : Language Lexeme) : Prop := Meets Lexeme.Clean l

variable {good : Lexeme → Prop} {l k : Language Lexeme}

theorem meets_word {w : String} (h : Meets good (word w)) : good (.ident w) := by
  obtain ⟨_, rfl, hgood⟩ := h
  exact hgood _ (List.mem_singleton_self _)

theorem hasClean_word {w : String} (h : HasClean (word w)) : isIdent w.toList = true :=
  meets_word h

theorem hasClean_quoted {value : String} (h : HasClean (quoted value)) : NullFree value := by
  obtain ⟨_, rfl, hclean⟩ := h
  exact hclean _ (List.mem_singleton_self _)

theorem Meets.of_mul (h : Meets good (l * k)) : Meets good l ∧ Meets good k := by
  obtain ⟨x, hx, hgood⟩ := h
  obtain ⟨y, hy, z, hz, rfl⟩ := Language.mem_mul.mp hx
  obtain ⟨hgoodY, hgoodZ⟩ := List.forall_mem_append.mp hgood
  exact ⟨⟨y, hy, hgoodY⟩, ⟨z, hz, hgoodZ⟩⟩

theorem Meets.of_add (h : Meets good (l + k)) : Meets good l ∨ Meets good k := by
  obtain ⟨x, hx, hgood⟩ := h
  exact hx.imp (⟨x, ·, hgood⟩) (⟨x, ·, hgood⟩)

theorem Meets.of_braced (h : Meets good (braced l)) : Meets good l := h.of_mul.1.of_mul.2

theorem Meets.of_prod {ls : List (Language Lexeme)} (h : Meets good ls.prod) (hl : l ∈ ls) :
    Meets good l := by
  induction ls with
  | nil => cases hl
  | cons k ls ih =>
    rw [List.prod_cons] at h
    rcases List.mem_cons.mp hl with rfl | hl
    · exact h.of_mul.1
    · exact ih h.of_mul.2 hl

theorem Meets.of_prod_map {α : Type} {w : α → Language Lexeme} {as : List α} {a : α}
    (h : Meets good (as.map w).prod) (ha : a ∈ as) : Meets good (w a) :=
  h.of_prod (List.mem_map.mpr ⟨a, ha, rfl⟩)

theorem Meets.of_commaSeparated {ls : List (Language Lexeme)}
    (h : Meets good (Tree.commaSeparated ls)) (hl : l ∈ ls) : Meets good l := by
  cases ls with
  | nil => cases hl
  | cons k ls =>
    rcases List.mem_cons.mp hl with rfl | hl
    · exact h.of_mul.1
    · exact (h.of_mul.2.of_prod_map hl).of_mul.2

end Grammar

namespace Tree

open Grammar

theorem meets_endpoint {good : Lexeme → Prop} {es : List Endpoint} {e : Endpoint}
    (h : Meets good (writtenEndpoints es)) (he : e ∈ es) : Meets good e.written := by
  cases es with
  | nil => cases he
  | cons first more =>
    rcases List.mem_cons.mp he with rfl | he
    · exact h.of_mul.1.of_mul.1
    · exact (h.of_mul.1.of_mul.2.of_prod_map he).of_mul.2

theorem exists_tokenize_of_parse {text unit : String} (h : (parse text unit).errors = []) :
    ∃ list, Lexer.tokenize text unit = .ok list ∧ parse text unit = ofTokens unit list := by
  unfold parse at h ⊢
  cases htokens : Lexer.tokenize text unit with
  | error fault => rw [htokens] at h; cases h
  | ok list => exact ⟨list, rfl, rfl⟩

section

variable {text unit : String} {e : Endpoint} (h : (parse text unit).errors = [])
  (he : e ∈ (parse text unit).source.endpoints)

include h he

/-- The path of a method that was read is a template. -/
theorem spells_of_parse {m : Method} (hm : m ∈ e.methods) :
    PathTemplate.Spells m.path.segments m.path.raw.toList := by
  obtain ⟨list, -, hlist⟩ := exists_tokenize_of_parse h
  rw [hlist] at h he
  exact ((written_of_ofTokens h).2 e he m hm).1

theorem meets_of_parse {good : Lexeme → Prop}
    (hgood : ∀ list, Lexer.tokenize text unit = .ok list →
      ∀ a ∈ list.tokens.map (·.lexeme), good a) : Meets good e.written := by
  obtain ⟨list, htokens, hlist⟩ := exists_tokenize_of_parse h
  rw [hlist] at h he
  exact meets_endpoint ⟨_, (written_of_ofTokens h).1, hgood list htokens⟩ he

theorem hasClean_of_parse (hnull : Lexer.LiteralsNullFree text unit) : HasClean e.written :=
  meets_of_parse h he fun _ => Lexer.clean_of_tokenize hnull

end

end Tree

/-! ## Clean schemas -/

namespace Schema

open Grammar

structure Field.Clean (f : Field) : Prop where
  name : isIdent f.name.toList = true
  type : NullFree f.type.describe
  renamed : ∀ wire, explicitName? f.attributes = some wire → NullFree wire
  wire : NullFree (f.wireName.getD f.name)

structure Variant.Clean (v : Variant) : Prop where
  name : isIdent v.name.toList = true
  payload : ∀ type ∈ v.payload, NullFree type.describe
  renamed : ∀ wire, explicitName? v.attributes = some wire → NullFree wire
  wire : NullFree (v.wireName.getD v.name)

/-- Names are identifiers, and no text has a null character. -/
def Item.Clean : Item → Prop
  | .struct s => isIdent s.name.toList = true ∧ ∀ f ∈ s.fields, f.Clean
  | .enum e => isIdent e.name.toList = true ∧ ∀ v ∈ e.variants, v.Clean

structure Method.Clean (m : Method) : Prop where
  path : NullFree m.path.raw
  parameters : ∀ p ∈ m.path.parameters, NullFree p
  items : ∀ i ∈ m.items, i.Clean

structure Endpoint.Clean (e : Endpoint) : Prop where
  name : isIdent e.name.toList = true
  methods : ∀ m ∈ e.methods, m.Clean

/-! ### Building -/

/-- The names that a type is written with. -/
def TypeDesc.names : TypeDesc → List String
  | primitive name => [name]
  | reference name => [name]
  | collection item => item.names
  | optional inner => inner.names

theorem names_markOptional (optional : Bool) (type : TypeDesc) :
    (markOptional optional type).names = type.names := by
  cases optional <;> rfl

/-- Every name of a built type is a word in every way to write the type. -/
theorem names_of_buildType {good : Lexeme → Prop} {t : Tree.TypeExpr} {type : TypeDesc}
    (h : buildType t = .ok type) (hgood : Meets good t.written) :
    ∀ name ∈ type.names, good (.ident name) := by
  fun_induction buildType t generalizing type with
  | case1 => cases h
  | case2 optional place arg item hitem ih =>
    cases h
    rw [Tree.TypeExpr.written_mk] at hgood
    have harg : Meets good arg.written := by
      refine hgood.of_mul.2.of_mul.1.of_mul.2.of_commaSeparated ?_
      exact List.mem_singleton_self _
    rw [names_markOptional]
    exact (ih hitem harg :)
  | case3 => cases h
  | case4 => cases h
  | case5 name =>
    cases h
    rw [Tree.TypeExpr.written_mk] at hgood
    rw [names_markOptional]
    exact List.forall_mem_singleton.mpr (meets_word hgood.of_mul.1.of_mul.2)
  | case6 name =>
    cases h
    rw [Tree.TypeExpr.written_mk] at hgood
    rw [names_markOptional]
    exact List.forall_mem_singleton.mpr (meets_word hgood.of_mul.1.of_mul.2)
  | case7 => cases h

/-- A type shows its names between signs that need no escape. -/
theorem holds_describe {good : String → Prop} (hgood : Composable good) {type : TypeDesc}
    (h : ∀ name ∈ type.names, isIdent name.toList = true) : good type.describe := by
  induction type with
  | primitive name => exact hgood.ident (h name (List.mem_singleton_self name))
  | reference name => exact hgood.ident (h name (List.mem_singleton_self name))
  | collection item ih =>
    exact hgood.append (hgood.append (hgood.chars (by decide)) (ih h)) (hgood.chars (by decide))
  | optional inner ih => exact hgood.append (hgood.chars (by decide)) (ih h)

theorem exists_rename_of_explicitName? {attributes : List Attribute} {wire : String}
    (h : explicitName? attributes = some wire) : ∃ a ∈ attributes, a.kind = .rename wire := by
  fun_induction explicitName? attributes with
  | case1 => cases h
  | case2 a rest name hscope hkind hempty ih =>
    obtain ⟨b, hb, hrename⟩ := ih h
    exact ⟨b, List.mem_cons_of_mem a hb, hrename⟩
  | case3 a rest name hscope hkind hempty =>
    cases h
    exact ⟨a, List.mem_cons_self, hkind⟩
  | case4 a rest hnot ih =>
    obtain ⟨b, hb, hrename⟩ := ih h
    exact ⟨b, List.mem_cons_of_mem a hb, hrename⟩

theorem eq_rename_of_entryKind {entry : Tree.AttributeEntry} {scope : AttributeScope}
    {wire : String} (h : entryKind scope entry = .ok (.rename wire)) :
    entry = .literal wire ∨ ∃ key, entry = .setting key wire := by
  cases entry with
  | literal value =>
    unfold entryKind literalKind at h
    cases scope with
    | type => cases h
    | field =>
      simp only at h
      split at h
      · cases h
      · cases h
        exact Or.inl rfl
  | flag key =>
    simp only [entryKind, flagKind] at h
    repeat' split at h
    all_goals cases h
  | setting key value =>
    simp only [entryKind, settingKind] at h
    repeat' split at h
    all_goals cases h
    exact Or.inr ⟨key, rfl⟩

theorem nullFree_of_buildAttributes {scope : AttributeScope} {brackets : List Tree.Attribute}
    {attributes : List Attribute} {wire : String}
    (h : buildAttributes scope brackets = .ok attributes)
    (hclean : HasClean (Tree.writtenAttributes brackets))
    (hwire : explicitName? attributes = some wire) : NullFree wire := by
  obtain ⟨a, ha, hkind⟩ := exists_rename_of_explicitName? hwire
  obtain ⟨item, hitem, hbuilt⟩ := exists_of_mem_mapM h ha
  obtain ⟨bracket, hbracket, hmem⟩ := List.mem_flatMap.mp hitem
  have hbrackets := hclean.of_prod_map hbracket
  have hwritten : HasClean item.written :=
    hbrackets.of_mul.1.of_mul.1.of_mul.2.of_commaSeparated (List.mem_map.mpr ⟨item, hmem, rfl⟩)
  have hentry : entryKind scope item.entry = .ok (.rename wire) := by
    unfold buildAttribute at hbuilt
    split at hbuilt
    · cases hbuilt
    · next kind hentry =>
      cases hbuilt
      rw [hentry, ← hkind]
  unfold Tree.AttributeItem.written at hwritten
  rcases eq_rename_of_entryKind hentry with heq | ⟨key, heq⟩
  · rw [heq] at hwritten
    exact hasClean_quoted hwritten
  · rw [heq] at hwritten
    exact hasClean_quoted hwritten.of_mul.2

/-- The name of an item and the names of its members. -/
def Item.names : Item → List String
  | .struct s => s.name :: s.fields.map (·.name)
  | .enum e => e.name :: e.variants.map (·.name)

/-- The types of the members of an item. -/
def Item.types : Item → List TypeDesc
  | .struct s => s.fields.map (·.type)
  | .enum e => e.variants.filterMap (·.payload)

section

variable {good : Lexeme → Prop}

theorem name_of_buildField {t : Tree.Field} {f : Field} (h : buildField t = .ok f)
    (hgood : Meets good t.written) : good (.ident f.name) := by
  simp only [buildField, bind_eq_ok_iff] at h
  obtain ⟨_, -, _, -, h⟩ := h
  cases h
  exact meets_word hgood.of_mul.1.of_mul.1.of_mul.2

theorem typeNames_of_buildField {t : Tree.Field} {f : Field} (h : buildField t = .ok f)
    (hgood : Meets good t.written) : ∀ name ∈ f.type.names, good (.ident name) := by
  simp only [buildField, bind_eq_ok_iff] at h
  obtain ⟨type, htype, _, -, h⟩ := h
  cases h
  exact names_of_buildType htype hgood.of_mul.2

theorem name_of_buildVariant {t : Tree.Variant} {v : Variant} (h : buildVariant t = .ok v)
    (hgood : Meets good t.written) : good (.ident v.name) := by
  simp only [buildVariant, bind_eq_ok_iff] at h
  obtain ⟨_, -, _, -, h⟩ := h
  cases h
  exact meets_word hgood.of_mul.1.of_mul.2

theorem typeNames_of_buildVariant {t : Tree.Variant} {v : Variant} (h : buildVariant t = .ok v)
    (hgood : Meets good t.written) {type : TypeDesc} (htype : v.payload = some type) :
    ∀ name ∈ type.names, good (.ident name) := by
  simp only [buildVariant, bind_eq_ok_iff] at h
  obtain ⟨payload, hpayload, _, -, h⟩ := h
  cases h
  have hwritten := hgood.of_mul.2
  cases hgiven : t.payload with
  | none =>
    rw [hgiven] at hpayload
    cases hpayload
    cases htype
  | some given =>
    rw [hgiven] at hpayload hwritten
    obtain ⟨built, hbuilt, hsome⟩ := map_eq_ok_iff.mp hpayload
    cases hsome
    cases htype
    exact names_of_buildType hbuilt hwritten.of_mul.1.of_mul.2

/-- Every name of a built item is a word in every way to write the item. -/
theorem names_of_buildItem {t : Tree.Item} {i : Item} (h : buildItem t = .ok i)
    (hgood : Meets good t.written) : ∀ name ∈ i.names, good (.ident name) := by
  have hbody := hgood.of_mul.2
  cases builtFrom_of_buildItem h with
  | @struct s _ _ _ hfields _ =>
    refine List.forall_mem_cons.mpr ⟨?_, List.forall_mem_map.mpr fun f hf => ?_⟩
    · rcases hbody.of_mul.1.of_add with hhead | hhead
      · obtain ⟨x, hx, hphrase⟩ := hhead
        simp only [Tree.Struct.roleHead, Language.mem_iSup] at hx
        obtain ⟨r, ⟨-, hname⟩, hx⟩ := hx
        show good (.ident s.name)
        rw [hname]
        exact meets_word (Meets.of_mul ⟨x, hx, hphrase⟩).1
      · exact meets_word hhead.of_mul.1.of_mul.2
    · obtain ⟨tf, htf, hbuilt⟩ := exists_of_mem_mapM hfields hf
      exact name_of_buildField hbuilt (hbody.of_mul.2.of_braced.of_prod_map htf).of_mul.1
  | enum _ hvariants _ =>
    refine List.forall_mem_cons.mpr ⟨?_, List.forall_mem_map.mpr fun v hv => ?_⟩
    · exact meets_word hbody.of_mul.1.of_mul.2
    · obtain ⟨tv, htv, hbuilt⟩ := exists_of_mem_mapM hvariants hv
      exact name_of_buildVariant hbuilt (hbody.of_mul.2.of_braced.of_prod_map htv).of_mul.1

end

theorem clean_of_buildField {t : Tree.Field} {f : Field} (h : buildField t = .ok f)
    (hclean : HasClean t.written) : f.Clean := by
  have hname : isIdent f.name.toList = true := name_of_buildField h hclean
  have htype := holds_describe nullFree_composable (typeNames_of_buildField h hclean)
  simp only [buildField, bind_eq_ok_iff] at h
  obtain ⟨type, -, attributes, hattributes, h⟩ := h
  cases h
  exact ⟨hname, htype,
    fun wire hwire =>
      nullFree_of_buildAttributes hattributes hclean.of_mul.1.of_mul.1.of_mul.1 hwire,
    nullFree_of_isIdent hname⟩

theorem clean_of_buildVariant {t : Tree.Variant} {v : Variant} (h : buildVariant t = .ok v)
    (hclean : HasClean t.written) : v.Clean := by
  have hname : isIdent v.name.toList = true := name_of_buildVariant h hclean
  have htypes : ∀ type ∈ v.payload, NullFree type.describe := fun type htype =>
    holds_describe nullFree_composable (typeNames_of_buildVariant h hclean htype)
  simp only [buildVariant, bind_eq_ok_iff] at h
  obtain ⟨payload, -, attributes, hattributes, h⟩ := h
  cases h
  exact ⟨hname, htypes, fun wire hwire =>
    nullFree_of_buildAttributes hattributes hclean.of_mul.1.of_mul.1 hwire,
    nullFree_of_isIdent hname⟩

/-- Every name in the types of a built item is a word in every way to write the item. -/
theorem typeNames_of_buildItem {good : Lexeme → Prop} {t : Tree.Item} {i : Item}
    (h : buildItem t = .ok i) (hgood : Meets good t.written) :
    ∀ type ∈ i.types, ∀ name ∈ type.names, good (.ident name) := by
  have hbody := hgood.of_mul.2
  cases builtFrom_of_buildItem h with
  | struct _ hfields _ =>
    refine List.forall_mem_map.mpr fun f hf => ?_
    obtain ⟨tf, htf, hbuilt⟩ := exists_of_mem_mapM hfields hf
    exact typeNames_of_buildField hbuilt (hbody.of_mul.2.of_braced.of_prod_map htf).of_mul.1
  | enum _ hvariants _ =>
    intro type htype
    obtain ⟨v, hv, hpayload⟩ := List.mem_filterMap.mp htype
    obtain ⟨tv, htv, hbuilt⟩ := exists_of_mem_mapM hvariants hv
    exact typeNames_of_buildVariant hbuilt
      (hbody.of_mul.2.of_braced.of_prod_map htv).of_mul.1 hpayload

theorem clean_of_buildItem {t : Tree.Item} {i : Item} (h : buildItem t = .ok i)
    (hclean : HasClean t.written) : i.Clean := by
  have hnames : ∀ name ∈ i.names, isIdent name.toList = true := names_of_buildItem h hclean
  have hbody := hclean.of_mul.2
  cases builtFrom_of_buildItem h with
  | struct _ hfields _ =>
    refine ⟨hnames _ List.mem_cons_self, fun f hf => ?_⟩
    obtain ⟨tf, htf, hbuilt⟩ := exists_of_mem_mapM hfields hf
    exact clean_of_buildField hbuilt (hbody.of_mul.2.of_braced.of_prod_map htf).of_mul.1
  | enum _ hvariants _ =>
    refine ⟨hnames _ List.mem_cons_self, fun v hv => ?_⟩
    obtain ⟨tv, htv, hbuilt⟩ := exists_of_mem_mapM hvariants hv
    exact clean_of_buildVariant hbuilt (hbody.of_mul.2.of_braced.of_prod_map htv).of_mul.1

theorem clean_buildMethod {t : Tree.Method} (hclean : HasClean t.written)
    (hspells : PathTemplate.Spells t.path.segments t.path.raw.toList) : (buildMethod t).Clean := by
  have hpath : NullFree t.path.raw := hasClean_quoted hclean.of_mul.1.of_mul.1.of_mul.2
  refine ⟨hpath, fun p hp => ?_, fun i hi => ?_⟩
  · obtain ⟨segment, hsegment, hparam⟩ := List.mem_filterMap.mp hp
    cases segment with
    | literal text => cases hparam
    | param name =>
      cases hparam
      exact nullFree_of_subset hpath (PathTemplate.subset_of_spells hspells hsegment)
  · obtain ⟨ti, hti, hitem⟩ := mem_items_buildMethod.mp hi
    exact clean_of_buildItem hitem (hclean.of_mul.2.of_braced.of_prod_map hti)

section

variable {text unit : String} {e : Endpoint} {m : Method}

/-- A schema that was read from a source without null characters in its literals is clean. -/
theorem clean_of_build (h : (Tree.parse text unit).errors = [])
    (hnull : Lexer.LiteralsNullFree text unit)
    (he : e ∈ (build (Tree.parse text unit).source).schema.endpoints) : e.Clean := by
  obtain ⟨te, hte, rfl⟩ := List.mem_map.mp he
  have hclean := Tree.hasClean_of_parse h hte hnull
  refine ⟨hasClean_word hclean.of_mul.1.of_mul.1.of_mul.1.of_mul.2, fun m hm => ?_⟩
  obtain ⟨tm, htm, rfl⟩ := List.mem_map.mp hm
  exact clean_buildMethod (hclean.of_mul.1.of_mul.2.of_braced.of_prod_map htm)
    (Tree.spells_of_parse h hte htm)

theorem mem_items_of_findRole? {role : Option Role} {s : Struct}
    (h : m.findRole? role = some s) : .struct s ∈ m.items := by
  obtain ⟨i, hi, hs⟩ := List.mem_filterMap.mp (List.mem_of_find?_eq_some h)
  cases i with
  | struct t =>
    cases hs
    exact hi
  | enum e => cases hs

/-- An endpoint is named by an identifier. -/
theorem isIdent_of_mem_endpoints (h : (Tree.parse text unit).errors = [])
    (he : e ∈ (build (Tree.parse text unit).source).schema.endpoints) :
    isIdent e.name.toList = true := by
  obtain ⟨te, hte, rfl⟩ := List.mem_map.mp he
  have hspelled : Meets Lexeme.Spelled te.written :=
    Tree.meets_of_parse h hte fun _ => Lexer.spelled_of_tokenize
  exact meets_word hspelled.of_mul.1.of_mul.1.of_mul.1.of_mul.2

/-- Every item was built from one whose words are identifiers. -/
theorem exists_of_mem_items (h : (Tree.parse text unit).errors = [])
    (he : e ∈ (build (Tree.parse text unit).source).schema.endpoints) (hm : m ∈ e.methods)
    {i : Item} (hi : i ∈ m.items) :
    ∃ t : Tree.Item, buildItem t = .ok i ∧ Meets Lexeme.Spelled t.written := by
  obtain ⟨te, hte, rfl⟩ := List.mem_map.mp he
  obtain ⟨tm, htm, rfl⟩ := List.mem_map.mp hm
  obtain ⟨ti, hti, hbuilt⟩ := mem_items_buildMethod.mp hi
  have hspelled : Meets Lexeme.Spelled te.written :=
    Tree.meets_of_parse h hte fun _ => Lexer.spelled_of_tokenize
  have hmethod := hspelled.of_mul.1.of_mul.2.of_braced.of_prod_map htm
  exact ⟨ti, hbuilt, hmethod.of_mul.2.of_braced.of_prod_map hti⟩

/-- Every item that was read, and every member of one, is named by an identifier. -/
theorem isIdent_of_mem_names (h : (Tree.parse text unit).errors = [])
    (he : e ∈ (build (Tree.parse text unit).source).schema.endpoints) (hm : m ∈ e.methods)
    {i : Item} (hi : i ∈ m.items) {name : String} (hname : name ∈ i.names) :
    isIdent name.toList = true := by
  obtain ⟨t, hbuilt, hspelled⟩ := exists_of_mem_items h he hm hi
  exact names_of_buildItem hbuilt hspelled name hname

/-- So is every type that a member refers to. -/
theorem isIdent_of_mem_types (h : (Tree.parse text unit).errors = [])
    (he : e ∈ (build (Tree.parse text unit).source).schema.endpoints) (hm : m ∈ e.methods)
    {i : Item} (hi : i ∈ m.items) {type : TypeDesc} (htype : type ∈ i.types) {name : String}
    (hname : name ∈ type.names) : isIdent name.toList = true := by
  obtain ⟨t, hbuilt, hspelled⟩ := exists_of_mem_items h he hm hi
  exact typeNames_of_buildItem hbuilt hspelled type htype name hname

theorem isIdent_of_build (h : (Tree.parse text unit).errors = [])
    (he : e ∈ (build (Tree.parse text unit).source).schema.endpoints) (hm : m ∈ e.methods)
    {s : Struct} (hs : .struct s ∈ m.items) {f : Field} (hf : f ∈ s.fields) :
    isIdent f.name.toList = true :=
  isIdent_of_mem_names h he hm hs (List.mem_cons_of_mem _ (List.mem_map.mpr ⟨f, hf, rfl⟩))

theorem spells_of_build (h : (Tree.parse text unit).errors = [])
    (he : e ∈ (build (Tree.parse text unit).source).schema.endpoints) (hm : m ∈ e.methods) :
    PathTemplate.Spells m.path.segments m.path.raw.toList := by
  obtain ⟨te, hte, rfl⟩ := List.mem_map.mp he
  obtain ⟨tm, htm, rfl⟩ := List.mem_map.mp hm
  exact Tree.spells_of_parse h hte htm

end

/-! ### Analysis -/

theorem nullFree_wireName {style : Option Casing.Style} {attributes : List Attribute}
    {name : String} (hname : NullFree name)
    (hrenamed : ∀ wire, explicitName? attributes = some wire → NullFree wire) :
    NullFree (wireName style attributes name) := by
  unfold wireName
  split
  · next wire hwire => exact hrenamed wire hwire
  · split
    · next style => exact style.nullFree_apply hname
    · exact hname

theorem Item.Clean.resolves {i i' : Item} (h : i.Clean) (hresolves : i.Resolves i') : i'.Clean := by
  obtain ⟨c, -, hwf, rfl⟩ := hresolves
  cases i with
  | struct s =>
    obtain ⟨hname, hfields⟩ := h
    refine ⟨hname, fun f hf => ?_⟩
    rw [resolveStruct_eq hwf] at hf
    obtain ⟨g, hg, rfl⟩ := List.mem_map.mp hf
    have hclean := hfields g hg
    exact ⟨hclean.name, hclean.type, hclean.renamed,
      nullFree_wireName (nullFree_of_isIdent hclean.name) hclean.renamed⟩
  | enum e =>
    obtain ⟨hname, hvariants⟩ := h
    refine ⟨hname, fun v hv => ?_⟩
    rw [resolveEnum_eq hwf] at hv
    obtain ⟨u, hu, rfl⟩ := List.mem_map.mp hv
    have hclean := hvariants u hu
    exact ⟨hclean.name, hclean.payload, hclean.renamed,
      nullFree_wireName (nullFree_of_isIdent hclean.name) hclean.renamed⟩

/-- Analysis leaves a clean endpoint clean. -/
theorem Endpoint.Clean.resolveEndpoint {e : Endpoint} (h : e.Clean) (hwf : e.WellFormed) :
    (Schema.resolveEndpoint e).Clean := by
  refine ⟨h.name, fun m' hm' => ?_⟩
  obtain ⟨m, hm, items, hitems, rfl⟩ := exists_of_mem_forall₂ (resolves_resolveEndpoint hwf) hm'
  have hclean := h.methods m hm
  refine ⟨hclean.path, hclean.parameters, fun i' hi' => ?_⟩
  obtain ⟨i, hi, hresolves⟩ := exists_of_mem_forall₂ hitems hi'
  exact (hclean.items i hi).resolves hresolves

end Schema
end EndpointDsl
