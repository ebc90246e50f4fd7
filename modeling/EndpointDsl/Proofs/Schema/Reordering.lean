import EndpointDsl.Proofs.Compilation
import EndpointDsl.Proofs.Schema.Granted

/-!
The order of the items in a method does not matter to analysis.

A look-up takes the first declaration of a name, and capabilities are passed on in the order in
which items are declared.  In a schema without errors no method declares a name twice, so every
look-up has one answer, and what an item is granted then mentions no order at all.
-/

namespace EndpointDsl
namespace Schema

/-! ## Schemas with their items in another order -/

def Method.Reordered (m m' : Method) : Prop := ∃ items, m.items.Perm items ∧ m' = { m with items }

def Endpoint.Reordered (e e' : Endpoint) : Prop :=
  ∃ methods, List.Forall₂ Method.Reordered e.methods methods ∧ e' = { e with methods }

/-- The same endpoints and methods, with the items of each method in some other order. -/
def Reordered (s s' : Schema) : Prop :=
  ∃ endpoints, List.Forall₂ Endpoint.Reordered s.endpoints endpoints ∧ s' = { s with endpoints }

section

variable {m m' : Method} {methods methods' : List Method}

theorem Method.Reordered.perm (h : m.Reordered m') : m.items.Perm m'.items := by
  obtain ⟨items, hitems, rfl⟩ := h
  exact hitems

theorem Method.Reordered.perm_structures (h : m.Reordered m') : m.structures.Perm m'.structures :=
  h.perm.filterMap Item.struct?

theorem Method.Reordered.perm_pathFields (h : m.Reordered m') : m.pathFields.Perm m'.pathFields :=
  (h.perm_structures.filter _).flatMap_right _

theorem Method.Reordered.perm_classNames (h : m.Reordered m') :
    m.classNames.Perm m'.classNames := by
  obtain ⟨items, hitems, rfl⟩ := h
  exact hitems.map _

theorem perm_classNames (h : List.Forall₂ Method.Reordered methods methods') :
    (methods.flatMap (·.classNames)).Perm (methods'.flatMap (·.classNames)) := by
  induction h with
  | nil => exact .refl _
  | cons hm _ ih => exact hm.perm_classNames.append ih

theorem perm_declaredFrom (h : List.Forall₂ Method.Reordered methods methods') (index : Nat) :
    (declaredFrom index methods).Perm (declaredFrom index methods') := by
  induction h generalizing index with
  | nil => exact .refl _
  | cons hm _ ih => exact (hm.perm.map _).append (ih (index + 1))

theorem declares_iff_of_reordered {e e' : Endpoint} (h : e.Reordered e') {name : String} :
    e.Declares name ↔ e'.Declares name := by
  obtain ⟨methods, hmethods, rfl⟩ := h
  constructor
  · rintro ⟨m, hm, i, hi, hname⟩
    obtain ⟨m', hm', hreordered⟩ := exists_of_mem_forall₂_left hmethods hm
    exact ⟨m', hm', i, hreordered.perm.mem_iff.mp hi, hname⟩
  · rintro ⟨m', hm', i, hi, hname⟩
    obtain ⟨m, hm, hreordered⟩ := exists_of_mem_forall₂ hmethods hm'
    exact ⟨m, hm, i, hreordered.perm.mem_iff.mpr hi, hname⟩

end

/-! ## Look-ups -/

/-- A search that can stop at one element only finds it in any order. -/
theorem find?_eq_of_perm {α : Type} {p : α → Bool} {xs ys : List α} (hperm : xs.Perm ys)
    (hunique : ∀ x ∈ xs, ∀ y ∈ xs, p x = true → p y = true → x = y) :
    xs.find? p = ys.find? p := by
  cases hx : xs.find? p with
  | none =>
    rw [List.find?_eq_none] at hx
    refine (List.find?_eq_none.mpr fun y hy => ?_).symm
    exact hx y (hperm.mem_iff.mpr hy)
  | some x =>
    have hmem := List.mem_of_find?_eq_some hx
    cases hy : ys.find? p with
    | none => exact absurd (List.find?_some hx) (List.find?_eq_none.mp hy x (hperm.mem_iff.mp hmem))
    | some y =>
      have hmem' := hperm.mem_iff.mpr (List.mem_of_find?_eq_some hy)
      rw [hunique x hmem y hmem' (List.find?_some hx) (List.find?_some hy)]

/-- No method declares two items of one name. -/
def NamesDiffer (methods : List Method) : Prop := ∀ m ∈ methods, (m.items.map (·.name)).Nodup

variable {methods methods' : List Method}

/-- The method of the first match is the same one, and it has no second match. -/
theorem find?_declaredFrom_eq (h : List.Forall₂ Method.Reordered methods methods')
    (hnames : NamesDiffer methods) (p : Nat → Bool) (name : String) (index : Nat) :
    (declaredFrom index methods).find? (fun a => p a.1 && a.2.name == name) =
      (declaredFrom index methods').find? (fun a => p a.1 && a.2.name == name) := by
  induction h generalizing index with
  | nil => rfl
  | @cons m m' rest rest' hm _ ih =>
    obtain ⟨hname, hrest⟩ := List.forall_mem_cons.mp hnames
    have hhere : (m.items.map (index, ·)).find? (fun a => p a.1 && a.2.name == name) =
        (m'.items.map (index, ·)).find? (fun a => p a.1 && a.2.name == name) := by
      refine find?_eq_of_perm (hm.perm.map _) ?_
      intro a ha b hb hpa hpb
      obtain ⟨i, hi, rfl⟩ := List.mem_map.mp ha
      obtain ⟨j, hj, rfl⟩ := List.mem_map.mp hb
      simp only [Bool.and_eq_true, beq_iff_eq] at hpa hpb
      rw [List.inj_on_of_nodup_map hname hi hj (hpa.2.trans hpb.2.symm)]
    rw [declaredFrom, declaredFrom, List.find?_append, List.find?_append, hhere, ih hrest]

theorem target?_eq (h : List.Forall₂ Method.Reordered methods methods')
    (hnames : NamesDiffer methods) :
    target? (declaredFrom 0 methods) = target? (declaredFrom 0 methods') := by
  funext index name
  have hown := find?_declaredFrom_eq h hnames (· == index) name 0
  have hany := find?_declaredFrom_eq h hnames (fun _ => true) name 0
  simp only [Bool.true_and] at hany
  rw [target?, target?, hown, hany]

/-! ## What is granted -/

/-- What an item is granted depends on which items there are and what their references lead to. -/
theorem granted_congr {items items' : List (Nat × Item)} (hmem : ∀ a, a ∈ items ↔ a ∈ items')
    (htarget : target? items = target? items') : granted items = granted items' := by
  have hrefers : RefersTo items = RefersTo items' := by
    funext a b
    rw [RefersTo, RefersTo, hmem, htarget]
  have hpasses : PassesTo items = PassesTo items' := by
    funext a b
    rw [PassesTo, PassesTo, hrefers]
  have hstarts : StartsWith items = StartsWith items' := by
    funext d a
    rw [StartsWith, StartsWith, hrefers]
  have hgains : Gains items = Gains items' := by
    funext d a
    simp only [Gains, hmem, hstarts, hpasses]
  funext a
  rw [granted, granted, hgains]

theorem granted_eq (h : List.Forall₂ Method.Reordered methods methods')
    (hnames : NamesDiffer methods) :
    granted (declaredFrom 0 methods) = granted (declaredFrom 0 methods') :=
  granted_congr (fun _ => (perm_declaredFrom h 0).mem_iff) (target?_eq h hnames)

theorem le_of_mem_declaredFrom {index : Nat} {a : Nat × Item} (h : a ∈ declaredFrom index methods) :
    index ≤ a.1 := by
  induction methods generalizing index with
  | nil => cases h
  | cons m rest ih =>
    rcases List.mem_append.mp h with hhere | hrest
    · obtain ⟨i, -, rfl⟩ := List.mem_map.mp hhere
      exact Nat.le_refl index
    · exact Nat.le_of_succ_le (ih hrest)

theorem nodup_declaredFrom (hnames : NamesDiffer methods) (index : Nat) :
    (declaredFrom index methods).Nodup := by
  induction methods generalizing index with
  | nil => exact .nil
  | cons m rest ih =>
    obtain ⟨hname, hrest⟩ := List.forall_mem_cons.mp hnames
    have hhere : (m.items.map (index, ·)).Nodup :=
      hname.of_map.map fun _ _ heq => (Prod.mk.inj heq).2
    refine hhere.append (ih hrest (index + 1)) ?_
    -- The items of later methods carry later positions.
    intro a ha ha'
    obtain ⟨i, -, rfl⟩ := List.mem_map.mp ha
    exact Nat.not_succ_le_self index (le_of_mem_declaredFrom ha')

theorem items_mapItemsFrom (f : Nat × Item → Item) (index : Nat) (methods : List Method) :
    (mapItemsFrom f index methods).flatMap (·.items) = (declaredFrom index methods).map f := by
  induction methods generalizing index with
  | nil => rfl
  | cons m rest ih =>
    rw [mapItemsFrom, List.flatMap_cons, ih, declaredFrom, List.map_append, List.map_map]
    rfl

theorem items_withCapabilities {e : Endpoint} (hnames : NamesDiffer e.methods) :
    e.withCapabilities.items =
      e.declared.map fun a => a.2.withCapability (granted e.declared a) := by
  rw [withCapabilities_eq (nodup_declaredFrom hnames 0), Endpoint.items, items_mapItemsFrom]
  rfl

/-- What analysis makes of a declared item. -/
noncomputable def settled (items : List (Nat × Item)) (a : Nat × Item) : Item :=
  resolveItem (a.2.withCapability (granted items a))

theorem methods_resolveEndpoint {e : Endpoint} (hnames : NamesDiffer e.methods) :
    (resolveEndpoint e).methods = mapItemsFrom (settled e.declared) 0 e.methods := by
  have hmap : ∀ (f : Nat × Item → Item) (index : Nat) (methods : List Method),
      (mapItemsFrom f index methods).map
          (fun m => { m with items := m.items.map resolveItem }) =
        mapItemsFrom (fun a => resolveItem (f a)) index methods := by
    intro f index methods
    induction methods generalizing index with
    | nil => rfl
    | cons m rest ih =>
      rw [mapItemsFrom, List.map_cons, ih, mapItemsFrom, List.map_map]
      rfl
  rw [resolveEndpoint, withCapabilities_eq (nodup_declaredFrom hnames 0)]
  exact hmap _ 0 e.methods

/-! ## Rules -/

theorem Method.WellFormed.reordered {e e' : Endpoint} {m m' : Method} (hwf : m.WellFormed e)
    (he : e.Reordered e') (hm : m.Reordered m') : m'.WellFormed e' := by
  have hpath : m'.path = m.path := by
    obtain ⟨items, -, rfl⟩ := hm
    rfl
  have hroles : m.roles.Perm m'.roles := hm.perm.filterMap _
  refine ⟨(hm.perm.map _).nodup hwf.itemNames, hroles.nodup hwf.roles, ?_, ?_, ?_, ?_⟩
  · simpa only [hroles.mem_iff] using hwf.bodies
  · intro i hi r hr
    exact (declares_iff_of_reordered he).mp (hwf.references i (hm.perm.mem_iff.mpr hi) r hr)
  · rw [hpath]
    exact hwf.parameters
  · intro p hp
    rw [hpath] at hp
    obtain ⟨f, scalar, hf, htype⟩ := hwf.covered p hp
    -- One field in some order is that field.
    have hsole := hm.perm_pathFields.filter (·.name == p)
    rw [hf] at hsole
    exact ⟨f, scalar, hsole.singleton_eq.symm, htype⟩

theorem Endpoint.WellFormed.namesDiffer {e : Endpoint} (h : e.WellFormed) : NamesDiffer e.methods :=
  fun m hm => (h.methods m hm).itemNames

theorem Endpoint.WellFormed.reordered {e e' : Endpoint} (hwf : e.WellFormed)
    (he : e.Reordered e') : e'.WellFormed := by
  obtain ⟨methods, hmethods, rfl⟩ := id he
  have hroutes : e.methods.map (·.route) = methods.map (·.route) := by
    refine map_eq_of_forall₂ hmethods ?_
    rintro m _ ⟨items, -, rfl⟩
    rfl
  have hidentifiers : e.methods.map (·.identifier) = methods.map (·.identifier) := by
    refine map_eq_of_forall₂ hmethods ?_
    rintro m _ ⟨items, -, rfl⟩
    rfl
  have hmethod : ∀ m' ∈ methods, m'.WellFormed { e with methods } := by
    intro m' hm'
    obtain ⟨m, hm, hreordered⟩ := exists_of_mem_forall₂ hmethods hm'
    exact (hwf.methods m hm).reordered he hreordered
  refine ⟨hroutes ▸ hwf.routes, hidentifiers ▸ hwf.identifiers,
    (perm_classNames hmethods).nodup hwf.classes, hmethod, ?_⟩
  have hnames : NamesDiffer methods := fun m hm => (hmethod m hm).itemNames
  have hgranted : granted (Endpoint.declared { e with methods }) = granted e.declared :=
    (granted_eq hmethods hwf.namesDiffer).symm
  have hitems := hwf.items
  rw [items_withCapabilities hwf.namesDiffer] at hitems
  rw [items_withCapabilities (e := { e with methods }) hnames, hgranted]
  intro i hi
  obtain ⟨a, ha, rfl⟩ := List.mem_map.mp hi
  exact hitems _ (List.mem_map_of_mem ((perm_declaredFrom hmethods 0).mem_iff.mpr ha))

theorem WellFormed.reordered {s s' : Schema} (hwf : s.WellFormed) (h : s.Reordered s') :
    s'.WellFormed := by
  obtain ⟨endpoints, hendpoints, rfl⟩ := h
  have hnames : s.endpoints.map (·.name) = endpoints.map (·.name) := by
    refine map_eq_of_forall₂ hendpoints ?_
    rintro e _ ⟨methods, -, rfl⟩
    rfl
  have hmodules : s.endpoints.map (·.moduleName) = endpoints.map (·.moduleName) := by
    refine map_eq_of_forall₂ hendpoints ?_
    rintro e _ ⟨methods, -, rfl⟩
    rfl
  refine ⟨hnames ▸ hwf.endpointNames, hmodules ▸ hwf.moduleNames, ?_⟩
  intro e' he'
  obtain ⟨e, he, hreordered⟩ := exists_of_mem_forall₂ hendpoints he'
  exact (hwf.endpoints e he).reordered hreordered

theorem Endpoint.Built.reordered {e e' : Endpoint} (hbuilt : e.Built) (h : e.Reordered e') :
    e'.Built := by
  obtain ⟨methods, hmethods, rfl⟩ := h
  intro m' hm' i hi
  obtain ⟨m, hm, hreordered⟩ := exists_of_mem_forall₂ hmethods hm'
  exact hbuilt m hm i (hreordered.perm.mem_iff.mpr hi)

/-! ## Outcomes -/

/-- The items of every method, each with what has become of it. -/
def pairs (methods methods' : List Method) : List (List (Item × Item)) :=
  List.zipWith (fun m m' => m.items.zip m'.items) methods methods'

/-- The items of a schema, endpoint by endpoint and method by method, each with what analysis makes
of it. -/
def outcomes (s : Schema) : List (List (List (Item × Item))) :=
  List.zipWith (fun e e' => pairs e.methods e'.methods) s.endpoints (analyze s).schema.endpoints

def itemTable (s : Schema) : List (List (List Item)) :=
  s.endpoints.map fun e => e.methods.map (·.items)

/-- Every item has its outcome, and nothing else comes out of analysis. -/
structure Paired (s : Schema) : Prop where
  before : s.outcomes.map (·.map (·.map Prod.fst)) = s.itemTable
  after : s.outcomes.map (·.map (·.map Prod.snd)) = (analyze s).schema.itemTable

theorem outcomes_eq (s : Schema) :
    s.outcomes = s.endpoints.map fun e => pairs e.methods (resolveEndpoint e).methods := by
  show List.zipWith _ s.endpoints (s.endpoints.map resolveEndpoint) = _
  rw [List.zipWith_map_right, List.zipWith_self]

theorem pairs_of_lengths
    (h : List.Forall₂ (fun m m' => m.items.length = m'.items.length) methods methods') :
    (pairs methods methods').map (·.map Prod.fst) = methods.map (·.items) ∧
      (pairs methods methods').map (·.map Prod.snd) = methods'.map (·.items) := by
  induction h with
  | nil => exact ⟨rfl, rfl⟩
  | cons hlength _ ih =>
    rw [pairs] at ih
    simp only [pairs, List.zipWith_cons_cons, List.map_cons, ih.1, ih.2,
      List.map_fst_zip hlength.le, List.map_snd_zip hlength.ge, and_self]

theorem lengths_resolveEndpoint (e : Endpoint) :
    List.Forall₂ (fun m m' => m.items.length = m'.items.length) e.methods
      (resolveEndpoint e).methods := by
  show List.Forall₂ _ _
    (e.withCapabilities.methods.map fun m => { m with items := m.items.map resolveItem })
  rw [List.forall₂_map_right_iff]
  refine (assigned_withCapabilities e).imp ?_
  rintro m _ ⟨items, hitems, rfl⟩
  rw [List.length_map]
  exact hitems.length_eq

theorem paired (s : Schema) : s.Paired := by
  constructor
  · rw [outcomes_eq, List.map_map, itemTable]
    exact List.map_congr_left fun e _ => (pairs_of_lengths (lengths_resolveEndpoint e)).1
  · rw [outcomes_eq, List.map_map]
    show _ = (s.endpoints.map resolveEndpoint).map _
    rw [List.map_map]
    exact List.map_congr_left fun e _ => (pairs_of_lengths (lengths_resolveEndpoint e)).2

theorem perm_pairs (f : Nat × Item → Item) (h : List.Forall₂ Method.Reordered methods methods')
    (index : Nat) :
    List.Forall₂ List.Perm (pairs methods (mapItemsFrom f index methods))
      (pairs methods' (mapItemsFrom f index methods')) := by
  induction h generalizing index with
  | nil => exact .nil
  | cons hm _ ih =>
    refine .cons ?_ (ih (index + 1))
    simp only [List.zip, List.zipWith_map_right, List.zipWith_self]
    exact hm.perm.map _

theorem perm_outcomes {e e' : Endpoint} (hwf : e.WellFormed) (h : e.Reordered e') :
    List.Forall₂ List.Perm (pairs e.methods (resolveEndpoint e).methods)
      (pairs e'.methods (resolveEndpoint e').methods) := by
  have hnames' := (hwf.reordered h).namesDiffer
  obtain ⟨methods, hmethods, rfl⟩ := h
  have hsettled : settled (Endpoint.declared { e with methods }) = settled e.declared := by
    funext a
    rw [settled, settled]
    exact congrArg (fun g => resolveItem (a.2.withCapability (g a)))
      (granted_eq hmethods hwf.namesDiffer).symm
  rw [methods_resolveEndpoint hwf.namesDiffer, methods_resolveEndpoint hnames', hsettled]
  exact perm_pairs _ hmethods 0

/-- Putting the items of the methods in another order makes no error, and every item comes out of
analysis as it did before. -/
theorem analyze_reordered {source : Tree.Source} {s' : Schema}
    (herrors : (analyze (build source).schema).errors = [])
    (hreordered : (build source).schema.Reordered s') :
    (analyze s').errors = [] ∧ (build source).schema.Paired ∧ s'.Paired ∧
      List.Forall₂ (List.Forall₂ List.Perm) (build source).schema.outcomes s'.outcomes := by
  have hwf := (errors_eq_nil_iff_of_built fun _ he => endpoint_built he).mp herrors
  have hwf' := hwf.reordered hreordered
  obtain ⟨endpoints, hendpoints, rfl⟩ := hreordered
  have hbuilt : ∀ e' ∈ endpoints, e'.Built := by
    intro e' he'
    obtain ⟨e, he, h⟩ := exists_of_mem_forall₂ hendpoints he'
    exact (endpoint_built he).reordered h
  refine ⟨(errors_eq_nil_iff_of_built hbuilt).mpr hwf', paired _, paired _, ?_⟩
  rw [outcomes_eq, outcomes_eq, List.forall₂_map_left_iff, List.forall₂_map_right_iff]
  exact forall₂_imp_of_mem hendpoints fun e e' he _ h => perm_outcomes (hwf.endpoints e he) h

/-- The last item of a method first. -/
def reversed (s : Schema) : Schema :=
  { s with endpoints := s.endpoints.map fun e =>
      { e with methods := e.methods.map fun m => { m with items := m.items.reverse } } }

theorem reordered_reversed (s : Schema) : s.Reordered s.reversed := by
  refine ⟨_, List.forall₂_map_right_iff.mpr (List.forall₂_same.mpr fun e _ => ?_), rfl⟩
  refine ⟨_, List.forall₂_map_right_iff.mpr (List.forall₂_same.mpr fun m _ => ?_), rfl⟩
  exact ⟨_, m.items.reverse_perm.symm, rfl⟩

theorem linked_reversed : linkedSchema.reversed ≠ linkedSchema ∧
    (analyze linkedSchema.reversed).errors = [] ∧ linkedSchema.Paired ∧
    linkedSchema.reversed.Paired ∧
    List.Forall₂ (List.Forall₂ List.Perm) linkedSchema.outcomes linkedSchema.reversed.outcomes := by
  have hschema := linked_built.2.2
  refine ⟨by decide +kernel, ?_⟩
  rw [← hschema]
  exact analyze_reordered (hschema.symm ▸ linked_analyzed) (reordered_reversed _)

end Schema
end EndpointDsl
