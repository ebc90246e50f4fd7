import EndpointDsl.Proofs.Lists
import EndpointDsl.Proofs.Schema.WellFormed

/-!
The rules of one method are silent exactly when the method is well formed.
-/

namespace EndpointDsl
namespace Schema

/-! ## References

A name is looked up in two rounds, first among the items of the method and then among all of the
endpoint.  The second round finds whatever the first one finds, so a reference is left open only if
no item of the endpoint has the name. -/

theorem resolveIndex?_eq_none_iff {entries : List Entry} {index : Nat} {name : String} :
    resolveIndex? entries index name = none ↔ ∀ x ∈ entries, x.item.name ≠ name := by
  unfold resolveIndex?
  split
  · next i hi =>
    obtain ⟨_, hname, -⟩ := List.findIdx?_eq_some_iff_getElem.mp hi
    simp only [Bool.and_eq_true, beq_iff_eq] at hname
    simp only [reduceCtorEq, false_iff, not_forall]
    exact ⟨_, List.getElem_mem _, not_not.mpr hname.2⟩
  · simp [List.findIdx?_eq_none_iff]

theorem lt_length_of_resolveIndex? {entries : List Entry} {index i : Nat} {name : String}
    (h : resolveIndex? entries index name = some i) : i < entries.length := by
  unfold resolveIndex? at h
  split at h
  · next j hj =>
    cases h
    exact (List.findIdx?_eq_some_iff_getElem.mp hj).1
  · exact (List.findIdx?_eq_some_iff_getElem.mp h).1

theorem resolve?_eq_none_iff {entries : List Entry} {index : Nat} {name : String} :
    resolve? entries index name = none ↔ resolveIndex? entries index name = none := by
  rw [resolve?]
  cases h : resolveIndex? entries index name with
  | none => simp
  | some i => simp [lt_length_of_resolveIndex? h]

theorem mem_entriesFrom {index : Nat} {methods : List Method} {i : Item} :
    (∃ x ∈ entriesFrom index methods, x.item = i) ↔ ∃ m ∈ methods, i ∈ m.items := by
  induction methods generalizing index with
  | nil => simp [entriesFrom]
  | cons m rest ih =>
    simp only [entriesFrom, List.mem_append, or_and_right, exists_or, ih, List.mem_cons]
    simp [methodEntries]

theorem declares_iff_entry {e : Endpoint} {name : String} :
    e.Declares name ↔ ∃ x ∈ e.entries, x.item.name = name := by
  constructor
  · rintro ⟨m, hm, i, hi, hname⟩
    obtain ⟨x, hx, rfl⟩ := mem_entriesFrom.mpr ⟨m, hm, hi⟩
    exact ⟨x, hx, hname⟩
  · rintro ⟨x, hx, hname⟩
    obtain ⟨m, hm, hi⟩ := mem_entriesFrom.mp ⟨x, hx, rfl⟩
    exact ⟨m, hm, x.item, hi, hname⟩

theorem resolveIndex?_eq_none_iff_not_declares {e : Endpoint} {index : Nat} {name : String} :
    resolveIndex? e.entries index name = none ↔ ¬ e.Declares name := by
  rw [resolveIndex?_eq_none_iff, declares_iff_entry, not_exists]
  simp only [not_and, ne_eq]

theorem referenceErrors_eq_nil_iff {e : Endpoint} {index : Nat} {m : Method} {i : Item} :
    referenceErrors e.name e.entries index m i = [] ↔ ∀ r ∈ i.references, e.Declares r.name := by
  rw [referenceErrors, List.filterMap_eq_nil_iff]
  refine forall₂_congr fun r _ => ?_
  cases h : resolveIndex? e.entries index r.name with
  | none => simpa using resolveIndex?_eq_none_iff_not_declares.mp h
  | some j =>
    simp only [true_iff]
    by_contra hnot
    rw [resolveIndex?_eq_none_iff_not_declares.mpr hnot] at h
    cases h

/-! ## Names and roles of items -/

theorem roleErrors_eq_nil_iff {m : Method} {roles : List Role} {i : Item} :
    roleErrors m roles i = [] ↔ Fresh id roles i.role?.toList := by
  unfold roleErrors
  cases i.role? with
  | none => simp
  | some role =>
    by_cases h : role ∈ roles <;> simp [fresh_cons, h]

theorem itemErrors_eq_nil_iff {e : Endpoint} {index : Nat} {m : Method} {names : List String}
    {roles : List Role} {items : List Item} :
    itemErrors e.name e.entries index m names roles items = [] ↔
      Fresh Item.name names items ∧ Fresh id roles (items.filterMap Item.role?) ∧
        ∀ i ∈ items, ∀ r ∈ i.references, e.Declares r.name := by
  induction items generalizing names roles with
  | nil => simp [itemErrors]
  | cons i rest ih =>
    have hroles : (i :: rest).filterMap Item.role? =
        i.role?.toList ++ rest.filterMap Item.role? := by
      cases h : i.role? <;> simp [h]
    have hname : (if names.contains i.name then
        [(⟨.duplicateItem i.name m.describe, i.location⟩ : SemanticError)] else []) = [] ↔
        i.name ∉ names := by
      by_cases h : i.name ∈ names <;> simp [h]
    simp only [itemErrors, List.append_eq_nil_iff, hname, roleErrors_eq_nil_iff,
      referenceErrors_eq_nil_iff, ih, fresh_cons, hroles, fresh_append, List.map_id,
      List.mem_cons, forall_eq_or_imp]
    tauto

/-! ## Bodies -/

theorem mem_roles_iff {m : Method} {role : Role} :
    role ∈ m.roles ↔ ∃ s ∈ m.structures, s.role = some role := by
  simp only [Method.roles, Method.structures, List.mem_filterMap]
  constructor
  · rintro ⟨i, hi, hrole⟩
    cases i with
    | struct s => exact ⟨s, ⟨.struct s, hi, rfl⟩, hrole⟩
    | enum e => cases hrole
  · rintro ⟨s, ⟨i, hi, his⟩, hrole⟩
    cases i with
    | struct s' => cases his; exact ⟨.struct s, hi, hrole⟩
    | enum e => cases his

theorem findRole?_eq_none_iff {m : Method} {role : Role} :
    m.findRole? (some role) = none ↔ role ∉ m.roles := by
  rw [Method.findRole?, List.find?_eq_none, mem_roles_iff, not_exists]
  simp only [beq_iff_eq, not_and]

theorem mem_of_findRole? {m : Method} {role : Role} {s : Struct}
    (h : m.findRole? (some role) = some s) : s ∈ m.structures ∧ s.role = some role :=
  ⟨List.mem_of_find?_eq_some h, by simpa using List.find?_some h⟩

theorem bodyConflict_eq_nil_iff {m : Method} {first second : Role} {what : String} :
    bodyConflict m first second what = [] ↔ ¬ (first ∈ m.roles ∧ second ∈ m.roles) := by
  unfold bodyConflict
  cases hfirst : m.findRole? (some first) with
  | none => simp [findRole?_eq_none_iff.mp hfirst]
  | some s =>
    have h1 : first ∈ m.roles := mem_roles_iff.mpr ⟨s, mem_of_findRole? hfirst⟩
    cases hsecond : m.findRole? (some second) with
    | none => simp [findRole?_eq_none_iff.mp hsecond]
    | some t =>
      have h2 : second ∈ m.roles := mem_roles_iff.mpr ⟨t, mem_of_findRole? hsecond⟩
      simp [h1, h2]

/-! ## Path parameters -/

theorem map_snd_covering {m : Method} {name : String} :
    (covering m name).map (·.2) = m.pathFields.filter (·.name == name) := by
  simp only [covering, Method.pathFields, List.map_flatMap, List.map_map, List.filter_flatMap]
  refine congrArg (List.flatMap · _) (funext fun s => ?_)
  exact List.map_id _

theorem coverageErrors_eq_nil_iff {m : Method} {name : String} :
    coverageErrors m name = [] ↔
      ∃ f scalar, m.pathFields.filter (·.name == name) = [f] ∧ f.type = .primitive scalar := by
  rw [← map_snd_covering]
  unfold coverageErrors
  split
  · next h => simp [h]
  · next s f h =>
    rw [h]
    cases htype : f.type <;>
      simp [Field.isOptional, TypeDesc.isOptional, isPrimitiveType, htype]
  · next h0 h1 =>
    simp only [List.map_eq_singleton_iff, reduceCtorEq, false_iff]
    rintro ⟨f, scalar, ⟨x, hx, rfl⟩, -⟩
    exact h1 x.1 x.2 hx

theorem pathErrors_eq_nil_iff {m : Method} :
    pathErrors m = [] ↔ m.path.parameters.Nodup ∧ ∀ p ∈ m.path.parameters,
      ∃ f scalar, m.pathFields.filter (·.name == p) = [f] ∧ f.type = .primitive scalar := by
  have hmem : ∀ p, p ∈ m.path.distinctParameters ↔ p ∈ m.path.parameters := by
    intro p
    rw [PathTemplate.distinctParameters, PathTemplate.mem_firstOccurrences]
    simp
  rw [pathErrors, List.append_eq_nil_iff, List.filterMap_eq_nil_iff, List.flatMap_eq_nil_iff]
  simp only [hmem, coverageErrors_eq_nil_iff]
  refine and_congr_left fun _ => ?_
  rw [List.nodup_iff_count_le_one]
  constructor
  · intro h p
    by_cases hp : p ∈ m.path.parameters
    · by_contra hcount
      simpa [Nat.lt_of_not_le hcount] using h p hp
    · rw [List.count_eq_zero_of_not_mem hp]
      exact Nat.zero_le 1
  · intro h p _
    rw [if_neg (Nat.not_lt.mpr (h p))]

/-! ## Methods -/

theorem methodErrors_eq_nil_iff {e : Endpoint} {index : Nat} {m : Method} :
    methodErrors e.name e.entries index m = [] ↔ m.WellFormed e := by
  simp only [methodErrors, List.append_eq_nil_iff, itemErrors_eq_nil_iff, fresh_nil_seen,
    bodyConflict_eq_nil_iff, pathErrors_eq_nil_iff, List.map_id]
  constructor
  · rintro ⟨⟨⟨⟨hnames, hroles, hrefs⟩, hrequest⟩, hresponse⟩, hparams, hcovered⟩
    exact ⟨hnames, hroles, fun h => ⟨fun h' => hrequest ⟨h', h⟩, fun h' => hresponse ⟨h', h⟩⟩,
      hrefs, hparams, hcovered⟩
  · intro h
    exact ⟨⟨⟨⟨h.itemNames, h.roles, h.references⟩, fun hb => (h.bodies hb.2).1 hb.1⟩,
      fun hb => (h.bodies hb.2).2 hb.1⟩, h.parameters, h.covered⟩

theorem methodErrorsFrom_eq_nil_iff {e : Endpoint} {index : Nat} {methods : List Method} :
    methodErrorsFrom e.name e.entries index methods = [] ↔ ∀ m ∈ methods, m.WellFormed e := by
  induction methods generalizing index with
  | nil => simp [methodErrorsFrom]
  | cons m rest ih =>
    rw [methodErrorsFrom, List.append_eq_nil_iff, methodErrors_eq_nil_iff, ih,
      List.forall_mem_cons]

end Schema
end EndpointDsl
