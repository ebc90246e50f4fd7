import EndpointDsl.Proofs.Schema.Analysis

/-!
What analysis makes of a well-formed schema.

Resolving fills in wire names, defaults and the error mark, and leaves names, roles, types and
references alone.  A walk that resolves only the first member under each name resolves every member
here, since the names of a well-formed item differ.
-/

namespace EndpointDsl
namespace Schema

/-! ## Members -/

/-- A field of a structure with all that analysis finds out about it. -/
def Struct.resolved (s : Struct) (f : Field) : Field :=
  { resolveField (typeStyle s.attributes) s.capability f with
    isError := decide (s.errorName? = some f.name) || f.isError }

variable {s : Struct} {f : Field}

@[simp] theorem Struct.resolved_name : (s.resolved f).name = f.name := rfl

@[simp] theorem Struct.resolved_type : (s.resolved f).type = f.type := rfl

@[simp] theorem Struct.resolved_location : (s.resolved f).location = f.location := rfl

theorem resolveStruct_eq (h : s.WellFormed) :
    resolveStruct s = { s with fields := s.fields.map s.resolved } := by
  have hfresh : Fresh Field.name [] s.fields := fresh_nil_seen.mpr h.fieldNames
  rw [resolveStruct, mapFirst_eq_map hfresh]
  congr 1
  refine List.map_congr_left fun f _ => ?_
  by_cases hmark : s.errorName? = some f.name
  · refine (if_pos hmark).trans ?_
    rw [Struct.resolved, decide_eq_true hmark, Bool.true_or]
  · refine (if_neg hmark).trans ?_
    rw [Struct.resolved, decide_eq_false hmark, Bool.false_or]
    rfl

theorem resolveEnum_eq {e : Enum} (h : e.WellFormed) :
    resolveEnum e =
      { e with variants := e.variants.map (resolveVariant (typeStyle e.attributes)) } := by
  have hfresh : Fresh Variant.name [] e.variants := fresh_nil_seen.mpr h.variantNames
  rw [resolveEnum, mapFirst_eq_map hfresh]

/-- A granted default has a zero value to fall back to. -/
theorem hasZero_of_grantsDefault {decoded : Bool} (h : grantsDefault decoded f = true) :
    HasZero f.type := by
  rw [grantsDefault, Bool.and_eq_true] at h
  exact zeroBlocker?_eq_none_iff.mp (Option.isNone_iff_eq_none.mp h.2)

/-! ## Items -/

/-- An item as analysis leaves it: with a usable capability, well-formed with it, and resolved. -/
def Item.Resolves (i i' : Item) : Prop :=
  ∃ c : Capability, c.Usable ∧ (i.withCapability c).WellFormed ∧
    i' = resolveItem (i.withCapability c)

variable {i i' : Item}

theorem Item.Resolves.name_eq (h : i.Resolves i') : i'.name = i.name := by
  obtain ⟨c, -, -, rfl⟩ := h
  cases i with
  | struct s => rfl
  | enum e => rfl

theorem Item.Resolves.role?_eq (h : i.Resolves i') : i'.role? = i.role? := by
  obtain ⟨c, -, -, rfl⟩ := h
  cases i with
  | struct s => rfl
  | enum e => rfl

/-- A resolved structure comes from a structure of the same role with the same field names. -/
theorem Item.Resolves.struct {s : Struct} (h : (Item.struct s).Resolves i') :
    ∃ s', i' = .struct s' ∧ s'.role = s.role ∧ s'.fields.map (·.name) = s.fields.map (·.name) := by
  obtain ⟨c, -, hwf, rfl⟩ := h
  refine ⟨_, rfl, rfl, ?_⟩
  rw [resolveStruct_eq hwf]
  simp [Function.comp_def]

/-! ## Methods and endpoints -/

/-- A method as analysis leaves it. -/
def Method.Resolves (m m' : Method) : Prop :=
  ∃ items, List.Forall₂ Item.Resolves m.items items ∧ m' = { m with items }

theorem resolves_resolveEndpoint {e : Endpoint} (h : e.WellFormed) :
    List.Forall₂ Method.Resolves e.methods (resolveEndpoint e).methods := by
  show List.Forall₂ _ _
    (e.withCapabilities.methods.map fun m => { m with items := m.items.map resolveItem })
  rw [List.forall₂_map_right_iff]
  have hwf : ∀ m' ∈ e.withCapabilities.methods, ∀ i' ∈ m'.items, i'.WellFormed :=
    fun m' hm' i' hi' => h.items i' (List.mem_flatMap.mpr ⟨m', hm', hi'⟩)
  refine forall₂_imp_of_mem (assigned_withCapabilities e) ?_
  rintro m _ - hm' ⟨items, hitems, rfl⟩
  refine ⟨items.map resolveItem, List.forall₂_map_right_iff.mpr ?_, rfl⟩
  refine forall₂_imp_of_mem hitems ?_
  rintro i _ - hi' ⟨c, husable, rfl⟩
  exact ⟨c, husable, hwf _ hm' _ hi', rfl⟩

/-- An analysed structure is a structure with its capability, resolved. -/
theorem exists_of_mem_resolveEndpoint {e : Endpoint} {m : Method} {s : Struct}
    (hm : m ∈ (resolveEndpoint e).methods) (hs : .struct s ∈ m.items) :
    ∃ s₀ : Struct, .struct s₀ ∈ e.withCapabilities.items ∧ s = resolveStruct s₀ := by
  obtain ⟨m₀, hm₀, rfl⟩ := List.mem_map.mp hm
  obtain ⟨i, hi, heq⟩ := List.mem_map.mp hs
  cases i with
  | struct s₀ =>
    cases heq
    exact ⟨s₀, List.mem_flatMap.mpr ⟨m₀, hm₀, hi⟩, rfl⟩
  | enum d => cases heq

end Schema
end EndpointDsl
