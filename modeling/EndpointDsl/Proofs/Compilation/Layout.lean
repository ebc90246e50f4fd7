import EndpointDsl.Proofs.Compilation.Places
import Mathlib

/-!
Layout does not matter.

Texts with the same lexemes differ in blanks, comments and the spelling of literals, which moves the
places of the tokens and keeps their order.  What is wrong with one text is wrong with the other at
the moved place, and sorting by place comes to the same order.  No place gets into a module.
-/

namespace EndpointDsl

open Compilation (found)
open Lexer (tokenize)

/-- A map between two rows of places that are both in order keeps the order. -/
theorem offset_le_iff_of_increasing {f : Location → Location} {places : List Location}
    (h : places.Pairwise (·.offset < ·.offset))
    (hmoved : (places.map f).Pairwise (·.offset < ·.offset)) {l m : Location} (hl : l ∈ places)
    (hm : m ∈ places) : (f l).offset ≤ (f m).offset ↔ l.offset ≤ m.offset := by
  have hboth := h.and (List.pairwise_map.mp hmoved)
  refine List.Pairwise.forall_of_forall_of_flip
    (R := fun l m => (f l).offset ≤ (f m).offset ↔ l.offset ≤ m.offset) ?_ ?_ ?_ hl hm
  · intro l _
    omega
  · exact hboth.imp fun hlt => by omega
  · refine hboth.imp fun hlt => ?_
    rw [flip]
    omega

/-- Texts with the same lexemes have the same modules, and the same diagnostics in the same order
but for their places. -/
theorem compile_eq_of_same_lexemes {text other unit : String} {list list' : TokenList}
    (hlist : tokenize text unit = .ok list) (hother : tokenize other unit = .ok list')
    (hlexemes : list.tokens.map (·.lexeme) = list'.tokens.map (·.lexeme)) :
    ∃ c c', compile text unit = .ok c ∧ compile other unit = .ok c' ∧ c.modules = c'.modules ∧
      c.diagnostics.map (·.cause) = c'.diagnostics.map (·.cause) := by
  have hincreasing := Lexer.increasing_of_tokenize hlist
  obtain ⟨f, hmoved, hplaces⟩ :=
    TokenList.exists_relocate (Lexer.nodup_of_tokenize hlist) hlexemes
  have hincreasing' := Lexer.increasing_of_tokenize hother
  rw [← hplaces] at hincreasing'
  obtain ⟨c, hc, -, hdiagnostics, hnone, hmodules⟩ := exists_compile text unit
  obtain ⟨c', hc', -, hdiagnostics', hnone', hmodules'⟩ := exists_compile other unit
  have hparsed : Tree.parse other unit = (Tree.parse text unit).relocate f := by
    rw [parse_of_tokenize hlist, parse_of_tokenize hother, ← hmoved, Tree.ofTokens_relocate]
  have hfound : found (Tree.parse other unit) =
      (found (Tree.parse text unit)).map (·.relocate f) := by
    rw [hparsed, Compilation.found_relocate]
  refine ⟨c, c', hc, hc', ?_, ?_⟩
  · by_cases hok : found (Tree.parse text unit) = []
    · have hok' : found (Tree.parse other unit) = [] := by rw [hfound, hok, List.map_nil]
      have hall := hmodules' hok'
      have hendpoints : (Tree.parse other unit).source.endpoints =
          (Tree.parse text unit).source.endpoints.map (·.relocate f) := by
        rw [hparsed]
        rfl
      rw [hendpoints, List.forall₂_map_left_iff] at hall
      simp only [Schema.buildEndpoint_relocate, Schema.resolveEndpoint_relocate,
        Client.ofEndpoint_relocate] at hall
      -- An endpoint has one module at most.
      refine Relator.RightUnique.forall₂ (fun e module module' h h' => ?_) (hmodules hok) hall
      exact Except.ok.inj (h.symm.trans h')
    · rw [hnone hok, hnone' fun h => hok (List.map_eq_nil_iff.mp (hfound ▸ h))]
  · have hin : ∀ d ∈ found (Tree.parse text unit), d.location ∈ list.places := by
      intro d hd
      rw [parse_of_tokenize hlist] at hd
      exact mem_places_of_found hd
    have hsorted : Schema.bySource ((found (Tree.parse text unit)).map (·.relocate f)) =
        (Schema.bySource (found (Tree.parse text unit))).map (·.relocate f) :=
      Schema.bySource_relocate fun a ha b hb =>
        offset_le_iff_of_increasing hincreasing hincreasing' (hin a ha) (hin b hb)
    rw [hdiagnostics, hdiagnostics', hfound, hsorted, List.map_map]
    rfl

/-! ## A text with more and with less between its tokens -/

def tightText : String := "[A:\x7bGET \"/\t\"=>\x7b\x7d\x7d][A:\x7b\x7d]"

def wideText : String :=
  "// twice\n[A : \x7b\n  GET \"/\\t\" => \x7b \x7d\n\x7d]\n[A:\x7b\x7d] // done"

def sharedLexemes : List Lexeme :=
  [.punct .leftBracket, .ident "A", .punct .colon, .punct .leftBrace,
   .ident "GET", .literal "/\t", .punct .arrow, .punct .leftBrace, .punct .rightBrace,
   .punct .rightBrace, .punct .rightBracket, .punct .leftBracket, .ident "A", .punct .colon,
   .punct .leftBrace, .punct .rightBrace, .punct .rightBracket]

theorem wide_text_alike : ∃ c c', compile tightText "" = .ok c ∧ compile wideText "" = .ok c' ∧
    c.modules = c'.modules ∧ c.diagnostics.map (·.cause) = c'.diagnostics.map (·.cause) := by
  have htight : (tokenize tightText "").map (·.tokens.map (·.lexeme)) = .ok sharedLexemes := by cbv
  have hwide : (tokenize wideText "").map (·.tokens.map (·.lexeme)) = .ok sharedLexemes := by cbv
  obtain ⟨list, hlist, hlexemes⟩ := map_eq_ok_iff.mp htight
  obtain ⟨list', hlist', hlexemes'⟩ := map_eq_ok_iff.mp hwide
  exact compile_eq_of_same_lexemes hlist hlist' (hlexemes.trans hlexemes'.symm)

end EndpointDsl
