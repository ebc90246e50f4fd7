import EndpointDsl.Proofs.Client.Generation

/-!
The structures of a method by role, and the path parameters that they fill.

In a well-formed method every parameter is covered by one role only.  Analysis keeps names, roles
and types, so whatever is found by role in an analysed method was found there before.
-/

namespace EndpointDsl
namespace Schema

/-- The wire name of a field of the structure. -/
def Struct.wire (s : Struct) (f : Field) : String :=
  wireName (typeStyle s.attributes) f.attributes f.name

/-- The structure of a role that may fill the path has a field of the name of a parameter. -/
def Method.Covers (m : Method) (role : Role) (p : String) : Prop :=
  role ∈ pathRoles ∧ ∃ s, m.findRole? (some role) = some s ∧ p ∈ s.fields.map (·.name)

def Method.hasRole (m : Method) (role : Role) : Bool := (m.findRole? (some role)).isSome

/-- The roles that a URI is made from: the query, and those that fill a parameter. -/
def Method.uriRoles (m : Method) : List Role :=
  pathRoles.filter fun role =>
    match m.findRole? (some role) with
    | some s => role == .query || s.fields.any fun f => m.path.parameters.contains f.name
    | none => false

/-- The roles that a request is made from. -/
def Method.requestRoles (m : Method) : List Role :=
  [.query, .request, .reqRes, .header].filter m.hasRole

/-- The role of the structure that is sent as a body. -/
def Method.bodyRole? (m : Method) : Option Role := [Role.request, .reqRes].find? m.hasRole

variable {e : Endpoint} {m m' : Method} {p : String}

/-! ## Covered parameters -/

theorem eq_of_flatMap_eq_singleton {α β : Type} {g : α → List β} {xs : List α} {b : β}
    (h : xs.flatMap g = [b]) {x y : α} (hx : x ∈ xs) (hy : y ∈ xs) (hgx : g x ≠ [])
    (hgy : g y ≠ []) : x = y := by
  induction xs with
  | nil => cases hx
  | cons z rest ih =>
    rw [List.flatMap_cons, List.append_eq_singleton_iff] at h
    rcases h with ⟨hz, hrest⟩ | ⟨hz, hrest⟩
    · have hne : ∀ {w}, w ∈ z :: rest → g w ≠ [] → w ∈ rest := by
        intro w hw hgw
        refine (List.mem_cons.mp hw).resolve_left ?_
        rintro rfl
        exact hgw hz
      exact ih hrest (hne hx hgx) (hne hy hgy)
    · have heq : ∀ {w}, w ∈ z :: rest → g w ≠ [] → w = z := by
        intro w hw hgw
        refine (List.mem_cons.mp hw).resolve_right fun hw => ?_
        exact hgw (List.flatMap_eq_nil_iff.mp hrest w hw)
      rw [heq hx hgx, heq hy hgy]

theorem findRole?_of_mem (hroles : m.roles.Nodup) {role : Role} {s : Struct}
    (hs : s ∈ m.structures) (hrole : s.role = some role) : m.findRole? (some role) = some s :=
  Client.find?_role_of_nodup (by rwa [Client.filterMap_role_structures]) hs hrole

/-- A parameter is filled by one field of one role, and the field holds a scalar. -/
theorem exists_covers (hwf : m.WellFormed e) (hp : p ∈ m.path.parameters) :
    ∃ role ∈ pathRoles, ∃ s f scalar, m.findRole? (some role) = some s ∧ f ∈ s.fields ∧
      f.name = p ∧ f.type = .primitive scalar ∧ ∀ other, m.Covers other p → other = role := by
  obtain ⟨f, scalar, hfields, htype⟩ := hwf.covered p hp
  have hf : f ∈ m.pathFields.filter (·.name == p) := hfields ▸ List.mem_singleton_self f
  obtain ⟨hfield, hname⟩ := List.mem_filter.mp hf
  obtain ⟨s, hs, hsf⟩ := List.mem_flatMap.mp hfield
  obtain ⟨hsm, hfills⟩ := List.mem_filter.mp hs
  have hrole : ∃ role ∈ pathRoles, s.role = some role := by
    cases hrole : s.role with
    | none => simp [Struct.fillsPath, hrole] at hfills
    | some role => exact ⟨role, by simpa [Struct.fillsPath, hrole] using hfills, rfl⟩
  obtain ⟨role, hpath, hrole⟩ := hrole
  refine ⟨role, hpath, s, f, scalar, findRole?_of_mem hwf.roles hsm hrole, hsf,
    beq_iff_eq.mp hname, htype, fun other hother => ?_⟩
  obtain ⟨hpath', t, ht, hpt⟩ := hother
  obtain ⟨htm, htrole⟩ := mem_of_findRole? ht
  -- A second structure would have a second field of the name.
  have ht' : t ∈ m.structures.filter Struct.fillsPath :=
    List.mem_filter.mpr ⟨htm, by simpa [Struct.fillsPath, htrole] using hpath'⟩
  have hne : ∀ {u : Struct}, p ∈ u.fields.map (·.name) → u.fields.filter (·.name == p) ≠ [] := by
    intro u hu hempty
    obtain ⟨g, hg, hgname⟩ := List.mem_map.mp hu
    exact List.filter_eq_nil_iff.mp hempty g hg (beq_iff_eq.mpr hgname)
  rw [Method.pathFields, List.filter_flatMap] at hfields
  have hst : t = s := eq_of_flatMap_eq_singleton hfields ht' hs (hne hpt)
    (hne (List.mem_map.mpr ⟨f, hsf, beq_iff_eq.mp hname⟩))
  rw [hst, hrole] at htrole
  exact (Option.some.inj htrole).symm

/-! ## Analysed structures -/

/-- A field as analysis leaves it in the structure. -/
structure Struct.ResolvesField (s : Struct) (f f' : Field) : Prop where
  name : f'.name = f.name
  type : f'.type = f.type
  wire : f'.wireName = some (s.wire f)

/-- A structure as analysis leaves it. -/
structure Struct.Resolves (s s' : Struct) : Prop where
  name : s'.name = s.name
  role : s'.role = s.role
  fields : List.Forall₂ s.ResolvesField s.fields s'.fields

theorem Item.Resolves.exists_struct {s : Struct} {i' : Item} (h : (Item.struct s).Resolves i') :
    ∃ s', i' = .struct s' ∧ s.Resolves s' := by
  obtain ⟨c, -, hwf, rfl⟩ := h
  refine ⟨_, rfl, rfl, rfl, ?_⟩
  rw [resolveStruct_eq hwf, List.forall₂_map_right_iff, List.forall₂_same]
  exact fun f _ => ⟨rfl, rfl, rfl⟩

theorem structures_resolve (h : m.Resolves m') :
    List.Forall₂ Struct.Resolves m.structures m'.structures := by
  obtain ⟨items, hitems, rfl⟩ := h
  refine List.rel_filterMap (fun i i' hi => ?_) hitems
  cases i with
  | struct s =>
    obtain ⟨s', rfl, hs⟩ := hi.exists_struct
    exact .some hs
  | enum d =>
    obtain ⟨c, -, -, rfl⟩ := hi
    exact .none

theorem rel_find? {α β : Type} {r : α → β → Prop} {xs : List α} {ys : List β} {f : α → Bool}
    {g : β → Bool} (h : List.Forall₂ r xs ys) (hfg : ∀ x y, r x y → f x = g y) :
    Option.Rel r (xs.find? f) (ys.find? g) := by
  induction h with
  | nil => exact .none
  | @cons x y xs ys hr _ ih =>
    rw [List.find?_cons, List.find?_cons, ← hfg x y hr]
    cases f x with
    | true => exact .some hr
    | false => exact ih

theorem findRole?_resolves (h : m.Resolves m') (role : Option Role) :
    (m.findRole? role = none ∧ m'.findRole? role = none) ∨
      ∃ s s', m.findRole? role = some s ∧ m'.findRole? role = some s' ∧ s.Resolves s' := by
  have hfound : Option.Rel Struct.Resolves (m.findRole? role) (m'.findRole? role) :=
    rel_find? (structures_resolve h) fun s s' hs => by rw [hs.role]
  generalize m.findRole? role = x, m'.findRole? role = x' at hfound
  cases hfound with
  | none => exact Or.inl ⟨rfl, rfl⟩
  | some hs => exact Or.inr ⟨_, _, rfl, rfl, hs⟩

theorem hasRole_resolves (h : m.Resolves m') : m'.hasRole = m.hasRole := by
  funext role
  unfold Method.hasRole
  rcases findRole?_resolves h (some role) with ⟨hs, hs'⟩ | ⟨s, s', hs, hs', -⟩
  · rw [hs, hs']
  · rw [hs, hs']
    rfl

theorem Struct.Resolves.fieldNames {s s' : Struct} (h : s.Resolves s') :
    s'.fields.map (·.name) = s.fields.map (·.name) :=
  (map_eq_of_forall₂ h.fields fun _ _ hf => hf.name.symm).symm

end Schema
end EndpointDsl
