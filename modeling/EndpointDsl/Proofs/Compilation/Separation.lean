import EndpointDsl.Proofs.Compilation.Places
import EndpointDsl.Proofs.Tree.Brackets
import Mathlib

/-!
Every endpoint is compiled by itself.

The block of an endpoint is part of the text, and its tokens are the tokens of that part.  The
parser reads it as the same endpoint when nothing else is there.  The rules that look across a unit
only compare names of endpoints, so one endpoint alone breaks none that the whole source keeps, and
its module depends on nothing but the endpoint.
-/

namespace EndpointDsl

open Client (ofEndpoint)
open Compilation (found)
open Lexer (tokenize)

/-! ## The text of a block -/

/-- The characters from the first token of a block to its last, which is a single bracket. -/
def blockText (text : String) (block : List Token) : String :=
  match block.head?, block.getLast? with
  | some first, some last =>
    String.ofList ((text.toList.drop first.location.offset).take
      (last.location.offset + 1 - first.location.offset))
  | _, _ => ""

theorem exists_ends {block : List Token} {u : List Lexeme}
    (h : block.map (·.lexeme) = .punct .leftBracket :: (u ++ [.punct .rightBracket])) :
    ∃ first inside last, block = first :: (inside ++ [last]) ∧
      last.lexeme = .punct .rightBracket := by
  obtain ⟨first, rest, rfl, -, hrest⟩ := List.map_eq_cons_iff.mp h
  obtain ⟨inside, ends, rfl, -, hends⟩ := List.map_eq_append_iff.mp hrest
  obtain ⟨last, nothing, rfl, hlast, hnothing⟩ := List.map_eq_cons_iff.mp hends
  rw [List.map_eq_nil_iff.mp hnothing]
  exact ⟨first, inside, last, rfl, hlast⟩

theorem exists_tokenize_blockText {text unit : String} {list : TokenList} {block : List Token}
    {u : List Lexeme} (hlist : tokenize text unit = .ok list) (hinside : block <:+: list.tokens)
    (hlexemes : block.map (·.lexeme) = .punct .leftBracket :: (u ++ [.punct .rightBracket])) :
    ∃ alone, tokenize (blockText text block) unit = .ok alone ∧
      alone.tokens.map (·.lexeme) = block.map (·.lexeme) := by
  obtain ⟨first, inside, last, rfl, hlast⟩ := exists_ends hlexemes
  obtain ⟨before, after, htokens⟩ := hinside
  have hcovers := Lexer.tokenize_eq_ok_iff.mp hlist
  have hfrom : list.tokens = before ++ first :: (inside ++ last :: after) := by simp [← htokens]
  obtain ⟨front, rest, htext, hfirst, hcovers⟩ := hcovers.from_token hfrom
  have hup : first :: (inside ++ last :: after) = (first :: inside) ++ last :: after := rfl
  obtain ⟨body, rest', rfl, hplace, hcovers⟩ := hcovers.up_to_bracket hup hlast
  have hoffset : first.location.offset = front.length := by simp [hfirst, Location.start]
  have hlength : last.location.offset + 1 - first.location.offset = (body ++ [']']).length := by
    rw [hplace, Location.offset_after, List.length_append, List.length_singleton]
    omega
  have hblock : blockText text (first :: (inside ++ [last])) = String.ofList (body ++ [']']) := by
    have hgetLast : (first :: (inside ++ [last])).getLast? = some last := by
      rw [← List.cons_append, List.getLast?_concat]
    have hchars : text.toList = front ++ ((body ++ [']']) ++ rest') := by simp [htext]
    simp only [blockText, List.head?_cons, hgetLast, hlength]
    rw [hchars, hoffset, List.drop_left, List.take_left]
  obtain ⟨tokens, hread, hsame⟩ := hcovers.splits rfl (.start unit)
  refine ⟨⟨tokens, (Location.start unit).after (body ++ [']'])⟩, ?_, hsame⟩
  rw [hblock, tokenize, String.toList_ofList, hread]
  rfl

/-! ## One endpoint of a source -/

theorem Compilation.found_eq_nil_iff {parsed : Tree.Parsed} :
    found parsed = [] ↔ parsed.errors = [] ∧ (Schema.build parsed.source).errors = [] ∧
      Schema.ruleErrors (Schema.build parsed.source).schema = [] := by
  constructor
  · intro h
    have hfront : frontDiagnostics parsed (Schema.build parsed.source) = [] := by
      by_contra hne
      rw [found_of_front hne] at h
      exact hne (Schema.bySource_eq_nil_iff.mpr h)
    obtain ⟨hparsed, hbuilt⟩ := frontDiagnostics_eq_nil_iff.mp hfront
    rw [found_of_built hparsed hbuilt, List.map_eq_nil_iff] at h
    exact ⟨hparsed, hbuilt, h⟩
  · rintro ⟨hparsed, hbuilt, hrules⟩
    rw [found_of_built hparsed hbuilt, hrules, List.map_nil]

/-- Nothing is wrong with an endpoint of a source with which nothing is wrong. -/
theorem found_sole {parsed : Tree.Parsed} (h : found parsed = []) {e : Tree.Endpoint}
    (he : e ∈ parsed.source.endpoints) (unit : String) : found ⟨⟨unit, [e]⟩, []⟩ = [] := by
  obtain ⟨-, hbuilt, hrules⟩ := Compilation.found_eq_nil_iff.mp h
  rw [Compilation.found_eq_nil_iff]
  refine ⟨rfl, ?_, ?_⟩
  · have hitems := List.flatMap_eq_nil_iff.mp hbuilt e he
    simp only [Schema.build, List.flatMap_singleton]
    exact hitems
  · have hitems := List.flatMap_eq_nil_iff.mp (List.append_eq_nil_iff.mp hrules).2
      (Schema.buildEndpoint e) (List.mem_map_of_mem he)
    simp only [Schema.build, Schema.ruleErrors, List.map_singleton, List.flatMap_singleton, hitems]
    rfl

/-- The text compiles without diagnostics to one module. -/
def CompilesTo (text unit : String) (module : Client.Module) : Prop :=
  ∃ c, compile text unit = .ok c ∧ c.diagnostics = [] ∧ c.modules = [module]

/-- A text with the lexemes of a block has the module of its endpoint. -/
theorem compilesTo_of_block {unit alone : String} {list list' : TokenList} {block : List Token}
    {e : Tree.Endpoint} {module : Client.Module} (hplaces : list.places.Nodup)
    (hinside : block <:+: list.tokens)
    (hblock : ∀ stop, Tree.ofTokens unit ⟨block, stop⟩ = ⟨⟨unit, [e]⟩, []⟩)
    (hfound : found ⟨⟨unit, [e]⟩, []⟩ = [])
    (hmodule : ofEndpoint unit (Schema.resolveEndpoint (Schema.buildEndpoint e)) = .ok module)
    (hlist : tokenize alone unit = .ok list')
    (hlexemes : list'.tokens.map (·.lexeme) = block.map (·.lexeme)) :
    CompilesTo alone unit module := by
  have hnodup : (⟨block, list.stop⟩ : TokenList).places.Nodup :=
    hplaces.sublist ((hinside.sublist.map _).append (List.Sublist.refl _))
  obtain ⟨f, hmoved, -⟩ := TokenList.exists_relocate hnodup hlexemes.symm
  have hparsed : Tree.parse alone unit = Tree.Parsed.relocate f ⟨⟨unit, [e]⟩, []⟩ := by
    rw [parse_of_tokenize hlist, ← hmoved, Tree.ofTokens_relocate, hblock]
  obtain ⟨c, hc, -, hdiagnostics, -, hmodules⟩ := exists_compile alone unit
  rw [hparsed, Compilation.found_relocate, hfound, List.map_nil] at hdiagnostics hmodules
  refine ⟨c, hc, hdiagnostics.trans (Schema.bySource_eq_nil_iff.mpr rfl), ?_⟩
  obtain ⟨made, rest, hmade, hrest, heq⟩ := List.forall₂_cons_left_iff.mp (hmodules rfl)
  cases hrest
  rw [Schema.buildEndpoint_relocate, Schema.resolveEndpoint_relocate, Client.ofEndpoint_relocate,
    hmodule] at hmade
  rw [heq, Except.ok.inj hmade]

/-- In a source without diagnostics every endpoint has its block.  The part of the text that the
block is compiles by itself, to the one module that the endpoint has in the whole source, and so
does any other text with the lexemes of the block. -/
theorem blocks_compile_alone {text unit : String} {c : Compilation}
    (hc : compile text unit = .ok c) (hok : c.diagnostics = []) :
    ∃ list, tokenize text unit = .ok list ∧
      List.Forall₂ (fun e module => ∃ block, Tree.BlockOf list.tokens e block ∧
        CompilesTo (blockText text block) unit module ∧
        ∀ alone list', tokenize alone unit = .ok list' →
          list'.tokens.map (·.lexeme) = block.map (·.lexeme) → CompilesTo alone unit module)
        c.parsed.source.endpoints c.modules := by
  obtain ⟨c', hc', hparsed, hdiagnostics, -, hmodules⟩ := exists_compile text unit
  cases hc.symm.trans hc'
  have hfound : found (Tree.parse text unit) = [] := by
    rw [hok] at hdiagnostics
    exact Schema.bySource_eq_nil_iff.mp hdiagnostics.symm
  obtain ⟨herrors, -, -⟩ := Compilation.found_eq_nil_iff.mp hfound
  cases hlist : tokenize text unit with
  | error e =>
    rw [Tree.parse, hlist] at herrors
    cases herrors
  | ok list =>
    refine ⟨list, rfl, ?_⟩
    have hnodup := Lexer.nodup_of_tokenize hlist
    rw [hparsed]
    refine forall₂_imp_of_mem (hmodules hfound) fun e module he _ hmodule => ?_
    have hsole := found_sole hfound he unit
    rw [parse_of_tokenize hlist] at herrors he
    obtain ⟨block, u, hof, hlexemes, hblock⟩ := Tree.exists_blockOf herrors he
    have hany : ∀ alone list', tokenize alone unit = .ok list' →
        list'.tokens.map (·.lexeme) = block.map (·.lexeme) → CompilesTo alone unit module :=
      fun alone list' => compilesTo_of_block hnodup hof.inside hblock hsole hmodule
    obtain ⟨part, hpart, hsame⟩ := exists_tokenize_blockText hlist hof.inside hlexemes
    exact ⟨block, hof, hany _ part hpart hsame, hany⟩

/-! ## Two endpoints -/

def pairText : String := "[A:\x7b\x7d],\n[pub B:\x7bGET \"/b\"=>\x7benum E\x7bV\x7d\x7d\x7d]"

def pairEnum : Tree.Enum := ⟨"E", [⟨"V", none, [], ⟨"", 2, 27, 34⟩⟩], [], ⟨"", 2, 20, 27⟩⟩

def pairMethod : Tree.Method :=
  ⟨.get, ⟨"/b", [.literal "/b"]⟩, ⟨"", 2, 13, 20⟩, [.enum pairEnum], ⟨"", 2, 9, 16⟩⟩

def pairSource : Tree.Source :=
  ⟨"", [⟨"A", false, [], ⟨"", 1, 1, 0⟩⟩, ⟨"B", true, [pairMethod], ⟨"", 2, 1, 8⟩⟩]⟩

theorem pair_compiles_alone : ∃ c list, compile pairText "" = .ok c ∧ c.diagnostics = [] ∧
    tokenize pairText "" = .ok list ∧ c.parsed.source = pairSource ∧
    List.Forall₂ (fun e module => ∃ block, Tree.BlockOf list.tokens e block ∧
      CompilesTo (blockText pairText block) "" module ∧
      ∀ alone list', tokenize alone "" = .ok list' →
        list'.tokens.map (·.lexeme) = block.map (·.lexeme) → CompilesTo alone "" module)
      c.parsed.source.endpoints c.modules := by
  have hparsed : Tree.parse pairText "" = ⟨pairSource, []⟩ := by cbv
  have hfound : found ⟨pairSource, []⟩ = [] := by decide +kernel
  obtain ⟨c, hc, hsame, hdiagnostics, -, -⟩ := exists_compile pairText ""
  rw [hparsed, hfound] at hdiagnostics
  have hok : c.diagnostics = [] := hdiagnostics.trans (Schema.bySource_eq_nil_iff.mpr rfl)
  obtain ⟨list, hlist, hall⟩ := blocks_compile_alone hc hok
  exact ⟨c, list, hc, hok, hlist, by rw [hsame, hparsed], hall⟩

end EndpointDsl
