import EndpointDsl.Proofs.Schema.Built
import EndpointDsl.Proofs.Schema.Capabilities
import EndpointDsl.Proofs.Schema.MemberRules
import EndpointDsl.Proofs.Schema.MethodRules
import EndpointDsl.Proofs.Schema.Uniqueness

/-!
Analysis is silent about exactly the well-formed schemas.

The rules about items run after capabilities were given out, so they speak of the items of
`Endpoint.withCapabilities`.  Giving out capabilities changes nothing else in an item; in particular
its attributes keep the scopes they were built with, which the rules about members rely on.
-/

namespace EndpointDsl
namespace Schema

/-- Every item of the endpoint is as it was built, with nothing filled in yet. -/
def Endpoint.Built (e : Endpoint) : Prop := ∀ m ∈ e.methods, ∀ i ∈ m.items, i.Built

theorem endpoint_built {source : Tree.Source} {e : Endpoint}
    (he : e ∈ (build source).schema.endpoints) : e.Built :=
  fun _ hm _ hi => built_of_mem_build he hm hi

theorem Item.Assigned.built {i i' : Item} (h : i.Assigned i') (hi : i.Built) : i'.Built := by
  obtain ⟨c, -, rfl⟩ := h
  cases i with
  | struct s => exact hi
  | enum e => exact hi

theorem itemRules_eq_nil_iff {e : Endpoint} (hbuilt : e.Built) :
    e.withCapabilities.items.flatMap memberErrors = [] ↔
      ∀ i ∈ e.withCapabilities.items, i.WellFormed := by
  rw [List.flatMap_eq_nil_iff]
  refine forall₂_congr fun i' hi' => ?_
  obtain ⟨m, hm, i, hi, hassigned⟩ := exists_assigned_of_mem hi'
  exact memberErrors_eq_nil_iff (hassigned.built (hbuilt m hm i hi)).scopes

theorem endpointErrors_eq_nil_iff {e : Endpoint} (hbuilt : e.Built) :
    endpointErrors e = [] ↔ e.WellFormed := by
  rw [endpointErrors, List.append_eq_nil_iff, List.append_eq_nil_iff, methodNameErrors_eq_nil_iff,
    methodErrorsFrom_eq_nil_iff, itemRules_eq_nil_iff hbuilt]
  -- At the start of an endpoint nothing is taken yet.
  simp only [List.map_nil, fresh_nil_seen, List.map_id]
  constructor
  · rintro ⟨⟨⟨hroutes, hidentifiers, hclasses⟩, hmethods⟩, hitems⟩
    exact ⟨hroutes, hidentifiers, hclasses, hmethods, hitems⟩
  · intro h
    exact ⟨⟨⟨h.routes, h.identifiers, h.classes⟩, h.methods⟩, h.items⟩

theorem errors_eq_nil_iff_of_built {s : Schema} (hbuilt : ∀ e ∈ s.endpoints, e.Built) :
    (analyze s).errors = [] ↔ s.WellFormed := by
  have hendpoints : (∀ e ∈ s.endpoints, endpointErrors e = []) ↔ ∀ e ∈ s.endpoints, e.WellFormed :=
    forall₂_congr fun e he => endpointErrors_eq_nil_iff (hbuilt e he)
  show bySource _ = [] ↔ _
  rw [bySource_eq_nil_iff, List.append_eq_nil_iff, List.flatMap_eq_nil_iff, hendpoints,
    endpointNameErrors_eq_nil_iff]
  simp only [List.map_nil, fresh_nil_seen]
  constructor
  · rintro ⟨⟨hnames, hmodules⟩, hall⟩
    exact ⟨hnames, hmodules, hall⟩
  · intro h
    exact ⟨⟨h.endpointNames, h.moduleNames⟩, h.endpoints⟩

/-- Analysis of what was built from a tree reports nothing exactly when every rule is kept. -/
theorem analyze_build_errors_eq_nil_iff (source : Tree.Source) :
    (analyze (build source).schema).errors = [] ↔ (build source).schema.WellFormed :=
  errors_eq_nil_iff_of_built fun _ he => endpoint_built he

end Schema
end EndpointDsl
