import EndpointDsl.Proofs.Tree.Completeness
import EndpointDsl.Proofs.Tree.Names

/-!
The notation of a type is read back as the type.

A type expression that builds has no more to it than its type: the names, the question marks and the
one argument of a collection.  So the notation of the type writes the expression that it was built
from, whatever text that stood in, and every text that writes an expression is read as it.
-/

namespace EndpointDsl
namespace Tree

mutual

/-- Without its locations an expression is what it is with all of them at one place. -/
theorem TypeExpr.bare_eq : ∀ t : TypeExpr, t.bare = t.relocate fun _ => default
  | ⟨name, isOptional, args, place⟩ => by
    rw [TypeExpr.bare, TypeExpr.relocate, bareArgs_eq args]

theorem bareArgs_eq : ∀ args : List TypeExpr,
    bareArgs args = args.map (TypeExpr.relocate fun _ => default)
  | [] => rfl
  | t :: more => by rw [bareArgs, List.map_cons, TypeExpr.bare_eq t, bareArgs_eq more]

end

end Tree

namespace Schema

open Grammar Language
open Lexer (Writes tokenize)
open Tree.Parser (run typeExpr)

/-! ## Lexemes of a type -/

namespace TypeDesc

def lexemes : TypeDesc → List Lexeme
  | primitive name => [.ident name]
  | reference name => [.ident name]
  | collection item =>
    .ident collectionName :: .punct .leftAngle :: (item.lexemes ++ [.punct .rightAngle])
  | optional inner => .punct .question :: inner.lexemes

/-- The notation of a type writes its lexemes in front of anything that continues no name. -/
theorem writes_describe {type : TypeDesc} (hnames : ∀ name ∈ type.names, isIdent name.toList = true)
    {more : List Lexeme} {rest : List Char} (hnext : ∀ c ∈ rest.head?, isIdentRest c = false)
    (hrest : Writes more rest) :
    Writes (type.lexemes ++ more) (type.describe.toList ++ rest) := by
  induction type generalizing more rest with
  | primitive name =>
    have hname := Writes.ident (hnames name (List.mem_singleton_self name)) hnext hrest
    rwa [String.ofList_toList] at hname
  | reference name =>
    have hname := Writes.ident (hnames name (List.mem_singleton_self name)) hnext hrest
    rwa [String.ofList_toList] at hname
  | collection item ih =>
    have hclosing : Writes (.punct .rightAngle :: more) ('>' :: rest) := .punct nofun hrest
    have hinside := ih hnames (by simp; decide) hclosing
    have hopening : Writes (.punct .leftAngle :: _) ('<' :: _) := .punct nofun hinside
    have hall : Writes (.ident collectionName :: _) (['V', 'e', 'c'] ++ '<' :: _) :=
      @Writes.ident_before ['V', 'e', 'c'] _ _ _ rfl rfl hopening
    simpa [lexemes, describe] using hall
  | optional inner ih =>
    have hall : Writes (.punct .question :: _) ('?' :: _) := .punct nofun (ih hnames hnext hrest)
    simpa [lexemes, describe] using hall

end TypeDesc

theorem lexemes_markOptional (optional : Bool) (type : TypeDesc) :
    (markOptional optional type).lexemes =
      (if optional then [.punct .question] else []) ++ type.lexemes := by
  cases optional <;> rfl

theorem mem_given (optional : Bool) :
    (if optional then [.punct .question] else []) ∈ Tree.given optional (mark .question) := by
  cases optional <;> rfl

/-- The lexemes of a type write the expression that it is built from. -/
theorem lexemes_mem_written {t : Tree.TypeExpr} {type : TypeDesc} (h : buildType t = .ok type) :
    type.lexemes ∈ t.written := by
  have hbare : ∀ (name : String) (optional : Bool) (place : Location) (inner : TypeDesc),
      inner.lexemes = [.ident name] → (markOptional optional inner).lexemes ∈
        Tree.TypeExpr.written ⟨name, optional, [], place⟩ := by
    intro name optional place inner hinner
    rw [lexemes_markOptional, hinner]
    show _ ∈ Tree.given optional (mark .question) * word name * 1
    rw [mul_one]
    exact append_mem_mul (mem_given optional) (mem_word name)
  fun_induction buildType t generalizing type with
  | case1 => cases h
  | case2 optional place arg item hitem ih =>
    cases h
    rw [lexemes_markOptional, Tree.TypeExpr.written_mk, mul_assoc, writtenArgs_eq_map,
      List.map_singleton, Tree.angled, Tree.commaSeparated_singleton, mul_assoc]
    exact append_mem_mul (mem_given optional) (append_mem_mul (mem_word _)
      (append_mem_mul (mem_mark _) (append_mem_mul (ih hitem) (mem_mark _))))
  | case3 => cases h
  | case4 => cases h
  | case5 name optional args place hname hargs =>
    cases h
    have hnil : args = [] := by simpa using hargs
    subst hnil
    exact hbare name optional place (.primitive name) rfl
  | case6 name optional args place hname hargs =>
    cases h
    have hnil : args = [] := by simpa using hargs
    subst hnil
    exact hbare name optional place (.reference name) rfl
  | case7 => cases h

/-! ## Reading the notation -/

/-- Building does not look at locations. -/
theorem buildType_of_bare {t u : Tree.TypeExpr} {type : TypeDesc} (hbare : u.bare = t.bare)
    (h : buildType t = .ok type) : buildType u = .ok type := by
  have hsame := congrArg buildType hbare
  rw [Tree.TypeExpr.bare_eq, Tree.TypeExpr.bare_eq, buildType_relocate, buildType_relocate, h]
    at hsame
  cases hu : buildType u with
  | error e =>
    rw [hu] at hsame
    cases hsame
  | ok built =>
    rw [hu] at hsame
    exact hsame

/-- The text is a type expression, from its first token to its last, and builds to the type. -/
def ReadsAs (text unit : String) (type : TypeDesc) : Prop :=
  ∃ list t, tokenize text unit = .ok list ∧ run (typeExpr list.stop) list.tokens = .ok (t, []) ∧
    buildType t = .ok type

theorem readsAs_describe {t : Tree.TypeExpr} {type : TypeDesc} (h : buildType t = .ok type)
    (hnames : ∀ name ∈ type.names, isIdent name.toList = true) (unit : String) :
    ReadsAs type.describe unit type := by
  have hend : ∀ c ∈ ([] : List Char).head?, isIdentRest c = false := nofun
  have hwrites := TypeDesc.writes_describe hnames hend .nil
  rw [List.append_nil, List.append_nil] at hwrites
  obtain ⟨list, hlist, hlexemes⟩ := Lexer.tokenize_of_writes hwrites unit
  have hphrase : list.tokens.map (·.lexeme) ∈ t.written := hlexemes ▸ lexemes_mem_written h
  obtain ⟨u, hread, hbare⟩ : ∃ u, run (typeExpr list.stop) (list.tokens ++ []) = .ok (u, []) ∧
      u.bare = t.bare := Tree.Parser.accepts_typeExpr t list.tokens [] hphrase nofun
  rw [List.append_nil] at hread
  exact ⟨list, u, hlist, hread, buildType_of_bare hbare h⟩

/-- The names of an expression that stands in a text are identifiers. -/
theorem names_of_run_typeExpr {text unit : String} {list : TokenList}
    (hlist : tokenize text unit = .ok list) {ts rest : List Token} (hts : ts <:+ list.tokens)
    {t : Tree.TypeExpr} (hread : run (typeExpr list.stop) ts = .ok (t, rest)) {type : TypeDesc}
    (h : buildType t = .ok type) : ∀ name ∈ type.names, isIdent name.toList = true := by
  obtain ⟨used, rfl, hwritten⟩ :=
    Tree.Parser.reads_typeExpr (n := ts.length) ts t rest (Nat.le_refl _) hread
  refine @names_of_buildType Lexeme.Spelled t type h ⟨_, hwritten, fun lexeme hlexeme => ?_⟩
  refine Lexer.spelled_of_tokenize hlist lexeme ?_
  have hsub : (used.map (·.lexeme)).Sublist (list.tokens.map (·.lexeme)) :=
    ((List.sublist_append_left used rest).trans hts.sublist).map _
  exact hsub.subset hlexeme

/-- The notation of a type is read back as the type, if its names are identifiers.  They are if the
type is built from an expression that stands in a text, at whatever place. -/
theorem notation_read_back :
    (∀ t type, buildType t = .ok type → (∀ name ∈ type.names, isIdent name.toList = true) →
      ∀ unit, ReadsAs type.describe unit type) ∧
    ∀ text unit list, tokenize text unit = .ok list → ∀ ts, ts <:+ list.tokens →
      ∀ t rest, run (typeExpr list.stop) ts = .ok (t, rest) → ∀ type, buildType t = .ok type →
        ∀ unit', ReadsAs type.describe unit' type :=
  ⟨fun _ _ h hnames => readsAs_describe h hnames, fun _ _ _ hlist _ hts _ _ hread _ h =>
    readsAs_describe h (names_of_run_typeExpr hlist hts hread h)⟩

/-! ## An optional list of optional references -/

/-- The tokens of `a:?Vec<?T>`. -/
def fieldTokens : TokenList :=
  let place (offset : Nat) : Location := ⟨"", 1, offset + 1, offset⟩
  { tokens := [⟨.ident "a", place 0⟩, ⟨.punct .colon, place 1⟩, ⟨.punct .question, place 2⟩,
      ⟨.ident "Vec", place 3⟩, ⟨.punct .leftAngle, place 6⟩, ⟨.punct .question, place 7⟩,
      ⟨.ident "T", place 8⟩, ⟨.punct .rightAngle, place 9⟩]
    stop := place 10 }

/-- The type of the field, where it stands in the text. -/
def fieldType : Tree.TypeExpr :=
  ⟨"Vec", true, [⟨"T", true, [], ⟨"", 1, 8, 7⟩⟩], ⟨"", 1, 3, 2⟩⟩

theorem field_type_read_back :
    tokenize "a:?Vec<?T>" "" = .ok fieldTokens ∧
    fieldTokens.tokens.drop 2 <:+ fieldTokens.tokens ∧
    run (typeExpr fieldTokens.stop) (fieldTokens.tokens.drop 2) = .ok (fieldType, []) ∧
    buildType fieldType = .ok (.optional (.collection (.optional (.reference "T")))) ∧
    (∀ name ∈ ["T"], isIdent name.toList = true) ∧
    ReadsAs "?Vec<?T>" "" (.optional (.collection (.optional (.reference "T")))) ∧
    ReadsAs "?Vec<?T>" "b" (.optional (.collection (.optional (.reference "T")))) := by
  have hlist : tokenize "a:?Vec<?T>" "" = .ok fieldTokens := by cbv
  have hts : fieldTokens.tokens.drop 2 <:+ fieldTokens.tokens := List.drop_suffix 2 _
  have hread : run (typeExpr fieldTokens.stop) (fieldTokens.tokens.drop 2) = .ok (fieldType, []) :=
    by cbv
  have hbuilt : buildType fieldType =
      .ok (.optional (.collection (.optional (.reference "T")))) := by
    cbv
  have hnames : ∀ name ∈ ["T"], isIdent name.toList = true := by decide
  exact ⟨hlist, hts, hread, hbuilt, hnames,
    notation_read_back.2 _ _ _ hlist _ hts _ _ hread _ hbuilt "",
    notation_read_back.1 _ _ hbuilt hnames "b"⟩

end Schema
end EndpointDsl
