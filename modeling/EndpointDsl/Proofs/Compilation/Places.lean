import EndpointDsl.Proofs.Client.Relocation
import EndpointDsl.Proofs.Compilation
import EndpointDsl.Proofs.Source.Places

/-!
The places of diagnostics.

What is wrong with a source is found in a fixed order and then sorted by place.  What is found
follows a move of the places.  So a move that leaves the places of the tokens alone leaves every
diagnostic alone, and a diagnostic can only be at the place of a token.
-/

namespace EndpointDsl

open Client (ofEndpoint)

namespace Compilation

/-- What is wrong with a source, in the order in which it is found.  The rules are checked only
when the text and its declarations are in order. -/
def found (parsed : Tree.Parsed) : List Diagnostic :=
  match parsed.errors.map SyntaxError.diagnostic ++
      (Schema.build parsed.source).errors.map Schema.BuildError.diagnostic with
  | [] => (Schema.ruleErrors (Schema.build parsed.source).schema).map
      Schema.SemanticError.diagnostic
  | e :: more => e :: more

theorem found_of_front {parsed : Tree.Parsed}
    (h : frontDiagnostics parsed (Schema.build parsed.source) ≠ []) :
    found parsed = parsed.errors.map SyntaxError.diagnostic ++
      (Schema.build parsed.source).errors.map Schema.BuildError.diagnostic := by
  rw [found]
  split
  · next hnil =>
    rw [frontDiagnostics, hnil] at h
    exact absurd (Schema.bySource_eq_nil_iff.mpr rfl) h
  · next hcons => exact hcons.symm

theorem found_of_built {parsed : Tree.Parsed} (hparsed : parsed.errors = [])
    (hbuilt : (Schema.build parsed.source).errors = []) :
    found parsed = (Schema.ruleErrors (Schema.build parsed.source).schema).map
      Schema.SemanticError.diagnostic := by
  rw [found, hparsed, hbuilt]
  rfl

theorem found_relocate (f : Location → Location) (parsed : Tree.Parsed) :
    found (parsed.relocate f) = (found parsed).map (·.relocate f) := by
  have hfront : (parsed.relocate f).errors.map SyntaxError.diagnostic ++
      (Schema.build (parsed.relocate f).source).errors.map Schema.BuildError.diagnostic =
      (parsed.errors.map SyntaxError.diagnostic ++
        (Schema.build parsed.source).errors.map Schema.BuildError.diagnostic).map
          (·.relocate f) := by
    rw [Tree.Parsed.relocate, Schema.errors_build_relocate, List.map_append, List.map_map,
      List.map_map, List.map_map, List.map_map]
    rfl
  rw [found, found, hfront]
  cases parsed.errors.map SyntaxError.diagnostic ++
      (Schema.build parsed.source).errors.map Schema.BuildError.diagnostic with
  | nil =>
    show (Schema.ruleErrors (Schema.build (parsed.source.relocate f)).schema).map _ = _
    rw [Schema.schema_build_relocate, Schema.ruleErrors_relocate, List.map_map, List.map_map]
    rfl
  | cons e more => rfl

end Compilation

open Compilation (found)

theorem bySource_map_diagnostic (errors : List Schema.SemanticError) :
    (Schema.bySource errors).map Schema.SemanticError.diagnostic =
      Schema.bySource (errors.map Schema.SemanticError.diagnostic) :=
  List.map_mergeSort fun _ _ _ _ => rfl

/-- A compilation sorts what is wrong, and makes the modules of the endpoints if nothing is. -/
theorem exists_compile (text unit : String) :
    ∃ c, compile text unit = .ok c ∧ c.parsed = Tree.parse text unit ∧
      c.diagnostics = Schema.bySource (found (Tree.parse text unit)) ∧
      (found (Tree.parse text unit) ≠ [] → c.modules = []) ∧
      (found (Tree.parse text unit) = [] → List.Forall₂ (fun e module =>
        ofEndpoint unit (Schema.resolveEndpoint (Schema.buildEndpoint e)) = .ok module)
          (Tree.parse text unit).source.endpoints c.modules) := by
  generalize hparsed : Tree.parse text unit = parsed
  generalize hbuilt : Schema.build parsed.source = built
  by_cases hfront : Compilation.frontDiagnostics parsed built = []
  · obtain ⟨hnone, hnone'⟩ := Compilation.frontDiagnostics_eq_nil_iff.mp hfront
    have hfound := Compilation.found_of_built hnone (hbuilt ▸ hnone')
    rw [hbuilt] at hfound
    by_cases herrors : (Schema.analyze built.schema).errors = []
    · have hrules : Schema.ruleErrors built.schema = [] := Schema.bySource_eq_nil_iff.mp herrors
      rw [hrules, List.map_nil] at hfound
      have hitems : ∀ e ∈ built.schema.endpoints, e.Built := by
        intro e he
        rw [← hbuilt] at he
        exact Schema.endpoint_built he
      obtain ⟨modules, hmodules, -⟩ :=
        exists_generate ((Schema.errors_eq_nil_iff_of_built hitems).mp herrors) hitems
      have hc := compile_of_generate hparsed hbuilt hfront herrors hmodules
      have hok : (⟨unit, parsed, built, some (Schema.analyze built.schema), modules⟩ :
          Compilation).diagnostics = [] := by
        rw [Compilation.diagnostics_of_analyzed hfront, herrors, List.map_nil]
      obtain ⟨-, hsame, -, hall⟩ := modules_of_compile hc hok
      have hsorted := Schema.bySource_eq_nil_iff.mpr hfound
      refine ⟨_, hc, rfl, hok.trans hsorted.symm, fun h => absurd hfound h, fun _ => ?_⟩
      have hendpoints : built.schema.endpoints =
          parsed.source.endpoints.map Schema.buildEndpoint := by
        rw [← hbuilt]
        rfl
      exact List.forall₂_map_left_iff.mp (hendpoints ▸ hall)
    · refine ⟨_, compile_of_errors hparsed hbuilt hfront herrors, rfl, ?_, fun _ => rfl,
        fun h => ?_⟩
      · rw [Compilation.diagnostics_of_analyzed hfront, Schema.errors_analyze,
          bySource_map_diagnostic, hfound]
      · rw [hfound, List.map_eq_nil_iff] at h
        exact absurd (Schema.bySource_eq_nil_iff.mpr h) herrors
  · have hfound := Compilation.found_of_front (hbuilt ▸ hfront)
    rw [hbuilt] at hfound
    refine ⟨_, compile_of_front hparsed hbuilt hfront, rfl, ?_, fun _ => rfl, fun h => ?_⟩
    · show Compilation.frontDiagnostics parsed built ++ [] = _
      rw [List.append_nil, hfound]
      rfl
    · rw [hfound] at h
      exact absurd (Schema.bySource_eq_nil_iff.mpr h) hfront

/-- What is wrong with the tokens of a text is wrong at a token or at the end. -/
theorem mem_places_of_found {unit : String} {list : TokenList} {d : Diagnostic}
    (hd : d ∈ found (Tree.ofTokens unit list)) : d.location ∈ list.places := by
  refine mem_of_map_relocate ?_ hd
  rw [← Compilation.found_relocate, ← Tree.ofTokens_relocate, list.relocate_moveOthers]

theorem parse_of_tokenize {text unit : String} {list : TokenList}
    (h : Lexer.tokenize text unit = .ok list) : Tree.parse text unit = Tree.ofTokens unit list := by
  rw [Tree.parse, h]

/-- Every diagnostic is at a place of the text, with the line and the column of its offset, and at
the place of a token or the end if the text has tokens.  Diagnostics come in the order of their
places. -/
theorem diagnostics_in_text (text unit : String) :
    ∃ c, compile text unit = .ok c ∧
      (∀ d ∈ c.diagnostics, d.location.InText text unit) ∧
      c.diagnostics.Pairwise (fun d e => d.location.offset ≤ e.location.offset) ∧
      ∀ list, Lexer.tokenize text unit = .ok list →
        ∀ d ∈ c.diagnostics, d.location ∈ list.places := by
  obtain ⟨c, hc, -, hdiagnostics, -, -⟩ := exists_compile text unit
  have hfound : ∀ d ∈ c.diagnostics, d ∈ found (Tree.parse text unit) := by
    intro d hd
    rw [hdiagnostics] at hd
    exact List.mem_mergeSort.mp hd
  have hplaces : ∀ list, Lexer.tokenize text unit = .ok list →
      ∀ d ∈ c.diagnostics, d.location ∈ list.places := by
    intro list hlist d hd
    have hin := hfound d hd
    rw [parse_of_tokenize hlist] at hin
    exact mem_places_of_found hin
  refine ⟨c, hc, fun d hd => ?_, ?_, hplaces⟩
  · cases hlist : Lexer.tokenize text unit with
    | ok list => exact Lexer.inText_of_tokenize hlist (hplaces list hlist d hd)
    | error e =>
      have hin := hfound d hd
      rw [Tree.parse, hlist] at hin
      obtain rfl := List.mem_singleton.mp hin
      exact Lexer.inText_of_tokenize_error hlist
  · rw [hdiagnostics]
    refine (List.pairwise_mergeSort ?_ ?_ _).imp fun h => of_decide_eq_true h
    · intro a b d hab hbd
      exact decide_eq_true (Nat.le_trans (of_decide_eq_true hab) (of_decide_eq_true hbd))
    · intro a b
      simp only [Bool.or_eq_true, decide_eq_true_eq]
      omega

end EndpointDsl
