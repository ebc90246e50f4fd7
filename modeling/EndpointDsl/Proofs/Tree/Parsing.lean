import EndpointDsl.Proofs.Source.Writing
import EndpointDsl.Proofs.Tree.Completeness

/-!
The parser accepts exactly the grammar and builds the tree of the derivation.

A list of tokens is accepted if and only if the grammar derives it.  The tree that is built is then
one that the tokens write, and up to locations the only one.  From the text on, every way to write a
well-formed tree is read back as that tree.
-/

namespace EndpointDsl
namespace Tree

open Grammar Language

/-! ## Every tree can be written -/

/-- The language has a phrase. -/
def HasPhrase (l : Language Lexeme) : Prop := ∃ x, x ∈ l

theorem hasPhrase_one : HasPhrase 1 := ⟨[], rfl⟩

theorem hasPhrase_mark (m : Punct) : HasPhrase (mark m) := ⟨_, mem_mark m⟩

theorem hasPhrase_word (w : String) : HasPhrase (word w) := ⟨_, mem_word w⟩

theorem hasPhrase_quoted (value : String) : HasPhrase (quoted value) := ⟨_, mem_quoted value⟩

theorem hasPhrase_optional (l : Language Lexeme) : HasPhrase (Grammar.optional l) :=
  ⟨[], nil_mem_optional l⟩

theorem HasPhrase.mul {l k : Language Lexeme} (hl : HasPhrase l) (hk : HasPhrase k) :
    HasPhrase (l * k) := by
  obtain ⟨x, hx⟩ := hl
  obtain ⟨y, hy⟩ := hk
  exact ⟨x ++ y, append_mem_mul hx hy⟩

theorem HasPhrase.braced {l : Language Lexeme} (hl : HasPhrase l) : HasPhrase (braced l) :=
  ((hasPhrase_mark _).mul hl).mul (hasPhrase_mark _)

theorem hasPhrase_prod {ls : List (Language Lexeme)} (h : ∀ l ∈ ls, HasPhrase l) :
    HasPhrase ls.prod := by
  induction ls with
  | nil => exact hasPhrase_one
  | cons l ls ih =>
    obtain ⟨hl, hls⟩ := List.forall_mem_cons.mp h
    rw [List.prod_cons]
    exact hl.mul (ih hls)

theorem hasPhrase_prod_map {α : Type} {w : α → Language Lexeme} {as : List α}
    (h : ∀ a ∈ as, HasPhrase (w a)) : HasPhrase (as.map w).prod :=
  hasPhrase_prod (List.forall_mem_map.mpr h)

theorem hasPhrase_commaSeparated {ls : List (Language Lexeme)} (h : ∀ l ∈ ls, HasPhrase l) :
    HasPhrase (commaSeparated ls) := by
  cases ls with
  | nil => exact hasPhrase_one
  | cons l ls =>
    obtain ⟨hl, hls⟩ := List.forall_mem_cons.mp h
    exact hl.mul (hasPhrase_prod_map fun k hk => (hasPhrase_mark _).mul (hls k hk))

theorem hasPhrase_given (b : Bool) {l : Language Lexeme} (hl : HasPhrase l) :
    HasPhrase (given b l) := by
  cases b with
  | false => exact hasPhrase_one
  | true => exact hl

theorem hasPhrase_attribute (a : Attribute) : HasPhrase a.written := by
  have hitem : ∀ i : AttributeItem, HasPhrase i.written := by
    rintro ⟨entry, place⟩
    cases entry with
    | literal value => exact hasPhrase_quoted value
    | flag key => exact hasPhrase_word key
    | setting key value =>
      exact ((hasPhrase_word key).mul (hasPhrase_mark _)).mul (hasPhrase_quoted value)
  have hitems : HasPhrase (commaSeparated (a.items.map AttributeItem.written)) :=
    hasPhrase_commaSeparated (List.forall_mem_map.mpr fun i _ => hitem i)
  exact (((hasPhrase_mark _).mul hitems).mul (hasPhrase_optional _)).mul (hasPhrase_mark _)

theorem hasPhrase_attributes (attrs : List Attribute) : HasPhrase (writtenAttributes attrs) :=
  hasPhrase_prod_map fun a _ => hasPhrase_attribute a

mutual

theorem hasPhrase_type : ∀ t : TypeExpr, HasPhrase t.written
  | ⟨name, isOptional, args, place⟩ => by
    have hargs := hasPhrase_args args
    rw [TypeExpr.written_mk, writtenArgs_eq_map]
    refine ((hasPhrase_given isOptional (hasPhrase_mark _)).mul (hasPhrase_word name)).mul ?_
    cases args with
    | nil => exact hasPhrase_one
    | cons t more =>
      rw [angled_of_ne_nil (by simp)]
      have hinside := hasPhrase_commaSeparated (List.forall_mem_map.mpr hargs)
      exact ((hasPhrase_mark _).mul hinside).mul (hasPhrase_mark _)

theorem hasPhrase_args : ∀ args : List TypeExpr, ∀ t ∈ args, HasPhrase t.written
  | [] => by simp
  | t :: more => List.forall_mem_cons.mpr ⟨hasPhrase_type t, hasPhrase_args more⟩

end

theorem hasPhrase_item (i : Item) : HasPhrase i.written := by
  refine (hasPhrase_attributes i.attributes).mul ?_
  cases i with
  | struct s =>
    have hfields : HasPhrase (writtenMembers Field.written s.fields) := by
      refine hasPhrase_prod_map fun f _ => HasPhrase.mul ?_ (hasPhrase_optional _)
      exact (((hasPhrase_attributes _).mul (hasPhrase_word _)).mul (hasPhrase_mark _)).mul
        (hasPhrase_type _)
    have hrole : HasPhrase (writtenRole s.role) := by
      cases s.role with
      | none => exact hasPhrase_one
      | some r => exact ((hasPhrase_mark _).mul (hasPhrase_word _)).mul (hasPhrase_mark _)
    obtain ⟨x, hx⟩ := ((hasPhrase_word "struct").mul (hasPhrase_word s.name)).mul hrole
    exact HasPhrase.mul ⟨x, Or.inr hx⟩ hfields.braced
  | enum e =>
    have hvariants : HasPhrase (writtenMembers Variant.written e.variants) := by
      refine hasPhrase_prod_map fun v _ => HasPhrase.mul ?_ (hasPhrase_optional _)
      refine ((hasPhrase_attributes _).mul (hasPhrase_word _)).mul ?_
      cases v.payload with
      | none => exact hasPhrase_one
      | some t => exact ((hasPhrase_mark _).mul (hasPhrase_type t)).mul (hasPhrase_mark _)
    exact ((hasPhrase_word _).mul (hasPhrase_word _)).mul hvariants.braced

theorem hasPhrase_endpoint (e : Endpoint) : HasPhrase e.written := by
  have hmethod : ∀ m : Method, HasPhrase m.written := by
    intro m
    have hitems : HasPhrase (m.items.map Item.written).prod :=
      hasPhrase_prod_map fun i _ => hasPhrase_item i
    exact (((hasPhrase_word _).mul (hasPhrase_quoted _)).mul (hasPhrase_mark _)).mul hitems.braced
  have hmethods : HasPhrase (e.methods.map Method.written).prod :=
    hasPhrase_prod_map fun m _ => hmethod m
  exact (((((hasPhrase_mark _).mul (hasPhrase_given _ (hasPhrase_word _))).mul
    (hasPhrase_word _)).mul (hasPhrase_mark _)).mul hmethods.braced).mul (hasPhrase_mark _)

theorem hasPhrase_endpoints (es : List Endpoint) : HasPhrase (writtenEndpoints es) := by
  cases es with
  | nil => exact hasPhrase_one
  | cons e more =>
    have hmore : HasPhrase (more.map (Grammar.optional (mark .comma) * ·.written)).prod :=
      hasPhrase_prod_map fun e _ => (hasPhrase_optional _).mul (hasPhrase_endpoint e)
    exact ((hasPhrase_endpoint e).mul hmore).mul (hasPhrase_optional _)

/-! ## The parser and the grammar -/

/-- The text writes the endpoints, with some choice of what is optional. -/
def WritesEndpoints (text : String) (es : List Endpoint) : Prop :=
  ∃ lexemes ∈ writtenEndpoints es, Lexer.Writes lexemes text.toList

/-- The names of the endpoints, and of all that they are made of, are identifiers. -/
def HasIdentifierNames (es : List Endpoint) : Prop :=
  ∀ lexemes ∈ writtenEndpoints es, ∀ name, Lexeme.ident name ∈ lexemes →
    isIdent name.toList = true

theorem parse_of_writes {text : String} {es : List Endpoint} (hes : ∀ e ∈ es, e.WellFormed)
    (h : WritesEndpoints text es) (unit : String) :
    (parse text unit).errors = [] ∧
      (parse text unit).source.endpoints.map Endpoint.bare = es.map Endpoint.bare := by
  obtain ⟨lexemes, hlexemes, hwrites⟩ := h
  obtain ⟨list, htokens, rfl⟩ := Lexer.tokenize_of_writes hwrites unit
  rw [parse, htokens]
  exact ofTokens_written hes hlexemes unit

/-- The parser reports no error on exactly the token lists that the grammar derives.  It then
builds a well-formed tree that the tokens write, and every such tree is the one it builds, up to
locations.  Every well-formed tree whose names are identifiers is written by some text, and every
text that writes it is read back as the tree. -/
theorem parser_accepts_grammar :
    (∀ unit list, (ofTokens unit list).errors = [] ↔
      list.tokens.map (·.lexeme) ∈ Grammar.source) ∧
    (∀ unit list, (ofTokens unit list).errors = [] →
      (∀ e ∈ (ofTokens unit list).source.endpoints, e.WellFormed) ∧
        list.tokens.map (·.lexeme) ∈ writtenEndpoints (ofTokens unit list).source.endpoints) ∧
    (∀ unit list es, (∀ e ∈ es, e.WellFormed) → list.tokens.map (·.lexeme) ∈ writtenEndpoints es →
      (ofTokens unit list).errors = [] ∧
        (ofTokens unit list).source.endpoints.map Endpoint.bare = es.map Endpoint.bare) ∧
    ∀ es, (∀ e ∈ es, e.WellFormed) →
      (HasIdentifierNames es → ∃ text, WritesEndpoints text es) ∧
      ∀ text unit, WritesEndpoints text es → (parse text unit).errors = [] ∧
        (parse text unit).source.endpoints.map Endpoint.bare = es.map Endpoint.bare := by
  refine ⟨fun unit list => ⟨fun h => ?_, fun h => ?_⟩, fun unit list h => ?_,
    fun unit list es hes h => ofTokens_written hes h unit, fun es hes => ⟨fun hnames => ?_, ?_⟩⟩
  · obtain ⟨hwritten, hgood⟩ := written_of_ofTokens h
    exact (isUnion_source _).mpr ⟨_, hgood, hwritten⟩
  · obtain ⟨es, hes, hwritten⟩ := (isUnion_source _).mp h
    exact (ofTokens_written hes hwritten unit).1
  · exact (written_of_ofTokens h).symm
  · obtain ⟨lexemes, hlexemes⟩ := hasPhrase_endpoints es
    obtain ⟨text, htext⟩ := Lexer.exists_writes (hnames lexemes hlexemes)
    exact ⟨text, lexemes, hlexemes, htext⟩
  · exact fun text unit h => parse_of_writes hes h unit

/-! ## A structure with attributes and a generic type -/

def taggedField : Field where
  name := "a"
  type := ⟨"Vec", true, [⟨"i32", false, [], default⟩], default⟩
  attributes := [⟨[⟨.literal "b", default⟩], default⟩]
  location := default

def taggedRequest : Struct where
  name := "Request"
  role := some .request
  fields := [taggedField]
  attributes := [⟨[⟨.flag "builder", default⟩], default⟩]
  location := default

def taggedMethod : Method where
  verb := .put
  path := ⟨"/t", [.literal "/t"]⟩
  pathLocation := default
  items := [.struct taggedRequest]
  location := default

def taggedEndpoint : Endpoint := ⟨"A", true, [taggedMethod], default⟩

theorem taggedEndpoint_wellFormed : taggedEndpoint.WellFormed := by
  refine List.forall_mem_singleton.mpr ⟨?_, List.forall_mem_singleton.mpr ⟨?_, ?_⟩⟩
  · exact @PathTemplate.Spells.text ['/', 't']
      (List.forall_mem_cons.mpr ⟨rfl, List.forall_mem_singleton.mpr rfl⟩)
  · exact List.forall_mem_singleton.mpr (List.cons_ne_nil _ _)
  · exact List.forall_mem_singleton.mpr (List.forall_mem_singleton.mpr (List.cons_ne_nil _ _))

theorem mem_writtenAttributes_singleton {item : AttributeItem} {place : Location}
    {x : List Lexeme} (h : x ∈ item.written) :
    [.punct .leftBracket] ++ x ++ [.punct .rightBracket] ∈
      writtenAttributes [⟨[item], place⟩] := by
  have hitems : x ++ [] ∈ commaSeparated [item.written] := append_mem_mul h nil_mem_one
  have hattribute := append_mem_mul (append_mem_mul (append_mem_mul (mem_mark .leftBracket) hitems)
    (nil_mem_optional (mark .comma))) (mem_mark .rightBracket)
  simpa [writtenAttributes, Attribute.written] using hattribute

/-- The lexemes of the field. -/
def fieldLexemes : List Lexeme :=
  [.punct .leftBracket, .literal "b", .punct .rightBracket, .ident "a", .punct .colon,
    .punct .question, .ident "Vec", .punct .leftAngle, .ident "i32", .punct .rightAngle]

theorem fieldLexemes_mem : fieldLexemes ∈ taggedField.written := by
  have hattribute : [.punct .leftBracket, .literal "b", .punct .rightBracket] ∈
      writtenAttributes taggedField.attributes :=
    @mem_writtenAttributes_singleton ⟨.literal "b", default⟩ _ _ (mem_quoted "b")
  have hitem : [Lexeme.ident "i32"] ∈ TypeExpr.written ⟨"i32", false, [], default⟩ :=
    append_mem_mul (append_mem_mul nil_mem_one (mem_word _)) nil_mem_one
  have htype : [.punct .question, .ident "Vec", .punct .leftAngle, .ident "i32",
      .punct .rightAngle] ∈ taggedField.type.written :=
    append_mem_mul (append_mem_mul (mem_mark _) (mem_word _))
      (append_mem_mul (append_mem_mul (mem_mark _) (append_mem_mul hitem nil_mem_one)) (mem_mark _))
  exact append_mem_mul (append_mem_mul (append_mem_mul hattribute (mem_word _)) (mem_mark _)) htype

/-- The lexemes of the structure.  A comma stands behind its field. -/
def requestLexemes : List Lexeme :=
  [Lexeme.punct .leftBracket, .ident "builder", .punct .rightBracket] ++
    ([Lexeme.ident "Request"] ++ ([Lexeme.punct .leftBrace] ++
      (fieldLexemes ++ [Lexeme.punct .comma]) ++ [Lexeme.punct .rightBrace]))

theorem requestLexemes_mem : requestLexemes ∈ (Item.struct taggedRequest).written := by
  have hattributes : [.punct .leftBracket, .ident "builder", .punct .rightBracket] ∈
      writtenAttributes taggedRequest.attributes :=
    @mem_writtenAttributes_singleton ⟨.flag "builder", default⟩ _ _ (mem_word "builder")
  have hhead : [Lexeme.ident "Request"] ∈ taggedRequest.roleHead := by
    rw [Struct.roleHead]
    simp only [Language.mem_iSup]
    exact ⟨.request, ⟨rfl, rfl⟩, append_mem_mul (mem_word _) (nil_mem_optional _)⟩
  have hfields : fieldLexemes ++ [.punct .comma] ∈
      writtenMembers Field.written taggedRequest.fields := by
    show _ ∈ [taggedField.written * Grammar.optional (mark .comma)].prod
    rw [List.prod_singleton]
    exact append_mem_mul fieldLexemes_mem (mem_optional (mem_mark .comma))
  exact append_mem_mul hattributes (append_mem_mul (Or.inl hhead)
    (append_mem_mul (append_mem_mul (mem_mark _) hfields) (mem_mark _)))

/-- The lexemes of the endpoint.  A comma stands behind it. -/
def endpointLexemes : List Lexeme :=
  [Lexeme.punct .leftBracket, .ident "pub", .ident "A", .punct .colon] ++
    ([Lexeme.punct .leftBrace] ++ ([Lexeme.ident "PUT", .literal "/t", .punct .arrow] ++
      ([Lexeme.punct .leftBrace] ++ requestLexemes ++ [Lexeme.punct .rightBrace])) ++
        [Lexeme.punct .rightBrace]) ++ [Lexeme.punct .rightBracket] ++ [Lexeme.punct .comma]

theorem endpointLexemes_mem : endpointLexemes ∈ writtenEndpoints [taggedEndpoint] := by
  have hitems : requestLexemes ∈ (taggedMethod.items.map Item.written).prod := by
    show _ ∈ [(Item.struct taggedRequest).written].prod
    rw [List.prod_singleton]
    exact requestLexemes_mem
  have hmethods : [Lexeme.ident "PUT", .literal "/t", .punct .arrow] ++
      ([Lexeme.punct .leftBrace] ++ requestLexemes ++ [Lexeme.punct .rightBrace]) ∈
        (taggedEndpoint.methods.map Method.written).prod := by
    show _ ∈ [taggedMethod.written].prod
    rw [List.prod_singleton]
    have hhead : [.ident "PUT", .literal "/t", .punct .arrow] ∈
        word "PUT" * quoted "/t" * mark .arrow :=
      append_mem_mul (append_mem_mul (mem_word _) (mem_quoted _)) (mem_mark _)
    exact append_mem_mul hhead (append_mem_mul (append_mem_mul (mem_mark _) hitems) (mem_mark _))
  have hhead : [.punct .leftBracket, .ident "pub", .ident "A", .punct .colon] ∈
      mark .leftBracket * given true (word "pub") * word "A" * mark .colon :=
    append_mem_mul (append_mem_mul (append_mem_mul (mem_mark _) (mem_word _)) (mem_word _))
      (mem_mark _)
  have hendpoint := append_mem_mul (append_mem_mul hhead
    (append_mem_mul (append_mem_mul (mem_mark .leftBrace) hmethods) (mem_mark .rightBrace)))
      (mem_mark .rightBracket)
  show _ ∈ taggedEndpoint.written * 1 * Grammar.optional (mark .comma)
  rw [mul_one]
  exact append_mem_mul hendpoint (mem_optional (mem_mark .comma))

def endpointText : String :=
  "[pub A:\x7bPUT \"/t\"=>\x7b[builder]Request\x7b[\"b\"]a:?Vec<i32>,\x7d\x7d\x7d],"

theorem writes_endpointText : Lexer.Writes endpointLexemes endpointText.toList := by
  have hend : Lexer.Writes [.punct .comma, .punct .rightBrace, .punct .rightBrace,
      .punct .rightBrace, .punct .rightBracket, .punct .comma] [',', '}', '}', '}', ']', ','] :=
    .punct nofun (.punct nofun (.punct nofun (.punct nofun (.punct nofun (.punct nofun .nil)))))
  have htype : Lexer.Writes (.punct .question :: .ident "Vec" :: .punct .leftAngle ::
      .ident "i32" :: .punct .rightAngle :: _) ('?' :: ['V', 'e', 'c'] ++ '<' :: _) :=
    .punct nofun (@Lexer.Writes.ident_before ['V', 'e', 'c'] _ _ _ rfl rfl (.punct nofun
      (@Lexer.Writes.ident_before ['i', '3', '2'] _ _ _ rfl rfl (.punct nofun hend))))
  have hfield : Lexer.Writes (.punct .leftBracket :: .literal "b" :: .punct .rightBracket ::
      .ident "a" :: .punct .colon :: _) ('[' :: '"' :: 'b' :: '"' :: ']' :: 'a' :: ':' :: _) :=
    .punct nofun (@Lexer.Writes.literal ['b'] ['b'] _ _
      (.plain (by decide) (by decide) (by decide) .nil) (.punct nofun
        (@Lexer.Writes.ident_before ['a'] _ _ _ rfl rfl (.punct nofun htype))))
  have hrequest : Lexer.Writes (.punct .leftBracket :: .ident "builder" :: .punct .rightBracket ::
      .ident "Request" :: .punct .leftBrace :: _)
      ('[' :: ['b', 'u', 'i', 'l', 'd', 'e', 'r'] ++ ']' ::
        ['R', 'e', 'q', 'u', 'e', 's', 't'] ++ '{' :: _) :=
    .punct nofun (@Lexer.Writes.ident_before ['b', 'u', 'i', 'l', 'd', 'e', 'r'] _ _ _ rfl rfl
      (.punct nofun (@Lexer.Writes.ident_before ['R', 'e', 'q', 'u', 'e', 's', 't'] _ _ _ rfl rfl
        (.punct nofun hfield))))
  have hmethod : Lexer.Writes (.ident "PUT" :: .literal "/t" :: .punct .arrow ::
      .punct .leftBrace :: _)
      (['P', 'U', 'T'] ++ ' ' :: '"' :: '/' :: 't' :: '"' :: '=' :: '>' :: '{' :: _) :=
    @Lexer.Writes.ident_before ['P', 'U', 'T'] _ _ _ rfl rfl (.gap (by decide)
      (@Lexer.Writes.literal ['/', 't'] ['/', 't'] _ _
        (.plain (by decide) (by decide) (by decide)
          (.plain (by decide) (by decide) (by decide) .nil))
        (.punct nofun (.punct nofun hrequest))))
  have hendpoint : Lexer.Writes (.punct .leftBracket :: .ident "pub" :: .ident "A" ::
      .punct .colon :: .punct .leftBrace :: _)
      ('[' :: ['p', 'u', 'b'] ++ ' ' :: ['A'] ++ ':' :: '{' :: _) :=
    .punct nofun (@Lexer.Writes.ident_before ['p', 'u', 'b'] _ _ _ rfl rfl
      (.gap (by decide) (@Lexer.Writes.ident_before ['A'] _ _ _ rfl rfl
        (.punct nofun (.punct nofun hmethod)))))
  exact hendpoint

/-- A public endpoint with a method, whose request has attributes and a generic type, is read back
from its text.  A comma follows the field and the endpoint. -/
theorem public_endpoint_read_back :
    (∀ e ∈ [taggedEndpoint], e.WellFormed) ∧ WritesEndpoints endpointText [taggedEndpoint] ∧
      (parse endpointText "a").errors = [] ∧
      (parse endpointText "a").source.endpoints.map Endpoint.bare = [taggedEndpoint] := by
  have hgood := List.forall_mem_singleton.mpr taggedEndpoint_wellFormed
  have hwrites : WritesEndpoints endpointText [taggedEndpoint] :=
    ⟨_, endpointLexemes_mem, writes_endpointText⟩
  exact ⟨hgood, hwrites, (parser_accepts_grammar.2.2.2 _ hgood).2 endpointText "a" hwrites⟩

end Tree
end EndpointDsl
