import EndpointDsl.Proofs.Lists
import EndpointDsl.Proofs.Schema.WellFormed

/-!
The rules about names that must differ across a unit or an endpoint are silent exactly when the
names do differ.

Each rule stops comparing a declaration at its first clash, so the tables that it carries may lack
names that were declared.  That cannot hide a clash: the walk is silent only if it never stopped
early, and then its tables hold every name seen so far.
-/

namespace EndpointDsl
namespace Schema

/-! ## Endpoints -/

theorem endpointNameErrors_eq_nil_iff {names : List String} {modules : List (String × String)}
    {endpoints : List Endpoint} :
    endpointNameErrors names modules endpoints = [] ↔
      Fresh Endpoint.name names endpoints ∧
        Fresh Endpoint.moduleName (modules.map (·.1)) endpoints := by
  induction endpoints generalizing names modules with
  | nil => simp [endpointNameErrors]
  | cons e rest ih =>
    rw [fresh_cons, fresh_cons]
    by_cases hname : e.name ∈ names
    · simp [endpointNameErrors, hname]
    · cases hmodule : lookup? e.moduleName modules with
      | some other =>
        have htaken : e.moduleName ∈ modules.map (·.1) :=
          List.mem_map.mpr ⟨_, mem_of_lookup? hmodule, rfl⟩
        simp [endpointNameErrors, hname, hmodule, htaken]
      | none =>
        have hfree := lookup?_eq_none_iff.mp hmodule
        rw [endpointNameErrors, if_neg (by simpa using hname), hmodule]
        simp only [ih, List.map_cons]
        tauto

/-! ## Class names -/

theorem mem_classNameErrors_taken {m : Method} {classes : List String} {items : List Item}
    {name : String} :
    name ∈ (classNameErrors m classes items).2 ↔
      name ∈ items.map (fun i => m.className i.name) ++ classes := by
  induction items generalizing classes with
  | nil => simp [classNameErrors]
  | cons i rest ih =>
    simp only [classNameErrors, ih, List.map_cons, List.mem_append, List.mem_cons]
    tauto

theorem classNameErrors_eq_nil_iff {m : Method} {classes : List String} {items : List Item} :
    (classNameErrors m classes items).1 = [] ↔
      Fresh id classes (items.map fun i => m.className i.name) := by
  induction items generalizing classes with
  | nil => simp [classNameErrors]
  | cons i rest ih =>
    rw [List.map_cons, fresh_cons]
    by_cases hi : m.className i.name ∈ classes
    · simp [classNameErrors, hi]
    · simp [classNameErrors, hi, ih]

/-! ## Methods -/

theorem methodNameErrors_eq_nil_iff {endpoint : String} {taken : Taken} {methods : List Method} :
    methodNameErrors endpoint taken methods = [] ↔
      Fresh Method.route taken.routes methods ∧
        Fresh Method.identifier (taken.identifiers.map (·.1)) methods ∧
        Fresh id taken.classes (methods.flatMap Method.classNames) := by
  induction methods generalizing taken with
  | nil => simp [methodNameErrors]
  | cons m rest ih =>
    rw [fresh_cons, fresh_cons, List.flatMap_cons, fresh_append]
    by_cases hroute : m.route ∈ taken.routes
    · have hcontains : taken.routes.contains (m.verb, m.path.raw) = true := by
        simpa [Method.route] using hroute
      simp only [methodNameErrors, hcontains, hroute, if_true, not_true_eq_false, false_and,
        reduceCtorEq]
    · have hcontains : taken.routes.contains (m.verb, m.path.raw) = false := by
        simpa [Method.route] using hroute
      cases hident : lookup? m.identifier taken.identifiers with
      | some other =>
        have htaken : m.identifier ∈ taken.identifiers.map (·.1) :=
          List.mem_map.mpr ⟨_, mem_of_lookup? hident, rfl⟩
        simp only [methodNameErrors, hcontains, hident, htaken, Bool.false_eq_true, if_false,
          not_true_eq_false, false_and, and_false, reduceCtorEq]
      | none =>
        have hfree := lookup?_eq_none_iff.mp hident
        -- Every class name of `m` is in the table that the rest is compared with.
        have hclasses : Fresh id (classNameErrors m taken.classes m.items).2
            (rest.flatMap Method.classNames) ↔
            Fresh id (m.classNames ++ taken.classes) (rest.flatMap Method.classNames) :=
          fresh_congr fun _ => mem_classNameErrors_taken
        simp only [methodNameErrors, hcontains, hident, Bool.false_eq_true, if_false,
          List.append_eq_nil_iff, classNameErrors_eq_nil_iff, ih, hclasses, List.map_cons,
          List.map_id, Method.route, Method.classNames]
        simp only [Method.route] at hroute
        tauto

end Schema
end EndpointDsl
