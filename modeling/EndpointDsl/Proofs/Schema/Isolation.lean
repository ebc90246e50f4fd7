import EndpointDsl.Proofs.Schema.Relocation
import EndpointDsl.Proofs.Tree.Spans

/-!
An item that cannot be built is left out by itself.

Building goes item by item, and the first problem of an item is at one of its places.  An item has
no places but those of the tokens it was read from, and the items of a source were read from runs of
tokens one after another.  So the errors come in source order, each inside its own item.
-/

namespace EndpointDsl

namespace Schema

/-! ## Items that are built and items that fail -/

/-- Each item is built, or has one error. -/
inductive Sifted : List Tree.Item → List Item → List BuildError → Prop
  | none : Sifted [] [] []
  | built {i : Tree.Item} {b : Item} {items : List Tree.Item} {bs : List Item}
      {errors : List BuildError} (hi : buildItem i = .ok b) (h : Sifted items bs errors) :
      Sifted (i :: items) (b :: bs) errors
  | failed {i : Tree.Item} {e : BuildError} {items : List Tree.Item} {bs : List Item}
      {errors : List BuildError} (hi : buildItem i = .error e) (h : Sifted items bs errors) :
      Sifted (i :: items) bs (e :: errors)

theorem builtItem?_eq_none {i : Tree.Item} {e : BuildError} (h : buildItem i = .error e) :
    builtItem? i = none := by
  rw [builtItem?, h]

theorem builtItem?_eq_some {i : Tree.Item} {b : Item} (h : buildItem i = .ok b) :
    builtItem? i = some b := by
  rw [builtItem?, h]

theorem buildError?_eq_none {i : Tree.Item} {b : Item} (h : buildItem i = .ok b) :
    buildError? i = none := by
  rw [buildError?, h]

theorem buildError?_eq_some {i : Tree.Item} {e : BuildError} (h : buildItem i = .error e) :
    buildError? i = some e := by
  rw [buildError?, h]

theorem sifted_filterMap (items : List Tree.Item) :
    Sifted items (items.filterMap builtItem?) (items.filterMap buildError?) := by
  induction items with
  | nil => exact .none
  | cons i items ih =>
    cases hi : buildItem i with
    | ok b =>
      rw [List.filterMap_cons_some (builtItem?_eq_some hi),
        List.filterMap_cons_none (buildError?_eq_none hi)]
      exact .built hi ih
    | error e =>
      rw [List.filterMap_cons_none (builtItem?_eq_none hi),
        List.filterMap_cons_some (buildError?_eq_some hi)]
      exact .failed hi ih

theorem items_build (source : Tree.Source) :
    ((build source).schema.endpoints.flatMap fun e => e.methods.flatMap (·.items)) =
      source.items.filterMap builtItem? := by
  simp only [build, buildEndpoint, buildMethod, Tree.Source.items, List.flatMap_map,
    List.filterMap_flatMap]

theorem errors_build (source : Tree.Source) :
    (build source).errors = source.items.filterMap buildError? := by
  simp only [build, Tree.Source.items, List.filterMap_flatMap]

/-! ## Methods and endpoints that are kept -/

/-- A method is built with all but its items as they were written.  The words and the path that are
read from text once more are read as what they are. -/
structure KeepsMethod (t : Tree.Method) (m : Method) : Prop where
  verb : m.verb = t.verb
  path : m.path = t.path
  location : m.location = t.location
  reads_verb : Verb.ofName? t.verb.name = some t.verb
  reads_path : PathTemplate.parse t.path.raw = .ok t.path
  reads_role : ∀ s, .struct s ∈ t.items → ∀ role, s.role = some role →
    Role.ofName? role.name = some role
  items : ∃ errors, Sifted t.items m.items errors

structure KeepsEndpoint (t : Tree.Endpoint) (e : Endpoint) : Prop where
  name : e.name = t.name
  isPublic : e.isPublic = t.isPublic
  location : e.location = t.location
  methods : List.Forall₂ KeepsMethod t.methods e.methods

theorem keepsMethod_buildMethod {t : Tree.Method} (h : t.WellFormed) :
    KeepsMethod t (buildMethod t) where
  verb := rfl
  path := rfl
  location := rfl
  reads_verb := Verb.ofName?_name t.verb
  reads_path := PathTemplate.parse_eq_ok_iff.mpr ⟨rfl, h.1⟩
  reads_role := fun _ _ role _ => Role.ofName?_name role
  items := ⟨_, sifted_filterMap t.items⟩

theorem keepsEndpoint_buildEndpoint {t : Tree.Endpoint} (h : t.WellFormed) :
    KeepsEndpoint t (buildEndpoint t) where
  name := rfl
  isPublic := rfl
  location := rfl
  methods := List.forall₂_map_right_iff.mpr
    (List.forall₂_same.mpr fun m hm => keepsMethod_buildMethod (h m hm))

/-! ## The places of errors -/

open Tree.Parser

variable {stop : Location}

/-- An item that cannot be built has its error at one of the tokens it was read from. -/
theorem location_of_buildItem {i : Tree.Item} {span : List Token} {e : BuildError}
    (hread : ReadFrom (run (item stop)) i span) (h : buildItem i = .error e) :
    e.location ∈ span.map (·.location) := by
  have hfixes : Fixes (moveOthers (span.map (·.location))) span := fun t ht =>
    moveOthers_eq_self_iff.mpr (List.mem_map_of_mem ht)
  have hsame : i.relocate _ = i := Takes.of_readFrom (fun _ => takes_item) hread _ hfixes
  have hmoved := buildItem_relocate (f := moveOthers (span.map (·.location))) i
  rw [hsame, h] at hmoved
  exact moveOthers_eq_self_iff.mp (Located.relocate_eq_self_iff.mp (Except.error.inj hmoved).symm)

/-- Errors are at tokens of their own items, so that they come in the order of the tokens. -/
theorem location_sublist_of_spread {items : List Tree.Item} {spans : List (List Token)}
    {ts : List Token} (h : List.Forall₂ (ReadFrom (run (item stop))) items spans)
    (hspread : Spread spans ts) :
    ((items.filterMap buildError?).map (·.location)).Sublist (ts.map (·.location)) := by
  induction hspread generalizing items with
  | none gap =>
    cases h
    exact List.nil_sublist _
  | next gap span _ ih =>
    cases h with
    | @cons i _ items _ hi h =>
      rw [List.map_append, List.map_append]
      refine List.Sublist.trans ?_ (List.sublist_append_right _ _)
      cases hbuild : buildItem i with
      | ok b =>
        rw [List.filterMap_cons_none (buildError?_eq_none hbuild)]
        exact (ih h).trans (List.sublist_append_right _ _)
      | error e =>
        rw [List.filterMap_cons_some (buildError?_eq_some hbuild), List.map_cons]
        exact (List.singleton_sublist.mpr (location_of_buildItem hi hbuild)).append (ih h)

/-- Whatever a text is read as, building it keeps its endpoints and methods, and builds the items
that can be built by themselves.  Every other item has one error, at a token of its own, and the
errors come in source order. -/
theorem build_isolated (text unit : String) :
    let source := (Tree.parse text unit).source
    let built := build source
    List.Forall₂ KeepsEndpoint source.endpoints built.schema.endpoints ∧
    Sifted source.items (built.schema.endpoints.flatMap fun e => e.methods.flatMap (·.items))
      built.errors ∧
    (match Lexer.tokenize text unit with
      | .error _ => source.items = []
      | .ok list => ∃ spans, Spread spans list.tokens ∧
          List.Forall₂ (fun i span => ReadFrom (run (item list.stop)) i span ∧
            ∀ e, buildItem i = .error e → e.location ∈ span.map (·.location)) source.items spans) ∧
    built.errors.Pairwise (·.location.offset < ·.location.offset) := by
  intro source built
  have hkept : List.Forall₂ KeepsEndpoint source.endpoints built.schema.endpoints :=
    List.forall₂_map_right_iff.mpr (List.forall₂_same.mpr fun e he =>
      keepsEndpoint_buildEndpoint (Tree.wellFormed_of_parse he))
  have hsifted : Sifted source.items
      (built.schema.endpoints.flatMap fun e => e.methods.flatMap (·.items)) built.errors := by
    rw [items_build, errors_build]
    exact sifted_filterMap source.items
  refine ⟨hkept, hsifted, ?_⟩
  cases hlist : Lexer.tokenize text unit with
  | error e =>
    have hsource : source.items = [] := by
      simp only [source, Tree.parse, hlist, Tree.Source.items, List.flatMap_nil]
    refine ⟨hsource, ?_⟩
    rw [errors_build, hsource]
    exact .nil
  | ok list =>
    have hsource : source = (Tree.ofTokens unit list).source := by
      simp only [source, Tree.parse, hlist]
    obtain ⟨spans, hspans, hspread⟩ := Tree.exists_item_spans unit list
    rw [← hsource] at hspans
    have hplaces := (location_sublist_of_spread hspans hspread).trans
      (List.sublist_append_left _ [list.stop])
    have hsorted := (Lexer.increasing_of_tokenize hlist).sublist hplaces
    rw [List.pairwise_map, ← errors_build] at hsorted
    refine ⟨⟨spans, hspread, hspans.imp fun i span hread => ⟨hread, fun e => ?_⟩⟩, hsorted⟩
    exact location_of_buildItem hread

end Schema
end EndpointDsl
