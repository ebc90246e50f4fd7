import EndpointDsl.Proofs.Lists
import EndpointDsl.Proofs.Schema.MemberRules
import EndpointDsl.Schema.Build

/-!
What holds of every schema that was built from a tree, before any rule is checked.

Attributes carry the scope of their place, scalar types have known names, and nothing that analysis
finds out is filled in yet.
-/

namespace EndpointDsl
namespace Schema

/-- Every scalar type inside a type is one that the language knows. -/
def TypeDesc.Known : TypeDesc → Prop
  | .primitive name => isPrimitive name = true
  | .collection item => item.Known
  | .reference _ => True
  | .optional inner => inner.Known

structure Field.Built (f : Field) : Prop where
  placed : Scoped f.attributes
  known : f.type.Known
  noDefault : f.hasDefault = false
  noError : f.isError = false

structure Variant.Built (v : Variant) : Prop where
  placed : Scoped v.attributes
  known : ∀ type, v.payload = some type → type.Known

def Item.Built : Item → Prop
  | .struct s => ∀ f ∈ s.fields, f.Built
  | .enum e => ∀ v ∈ e.variants, v.Built

theorem Item.Built.scopes {i : Item} (h : i.Built) : i.Scoped := by
  cases i with
  | struct s => exact fun f hf => (h f hf).placed
  | enum e => exact fun v hv => (h v hv).placed

/-! ## Types -/

theorem known_markOptional {optional : Bool} {inner : TypeDesc} (h : inner.Known) :
    (markOptional optional inner).Known := by
  cases optional with
  | false => exact h
  | true => exact h

theorem buildType_known : ∀ {t : Tree.TypeExpr} {type : TypeDesc},
    buildType t = .ok type → type.Known
  | ⟨name, optional, args, location⟩, type, h => by
    unfold buildType at h
    split at h
    · split at h
      · next arg =>
        split at h
        · cases h
        · next item hitem =>
          cases h
          have hknown : item.Known := buildType_known hitem
          exact known_markOptional (show (TypeDesc.collection item).Known from hknown)
      · cases h
    · split at h
      · cases h
      · split at h
        · next hprimitive =>
          cases h
          exact known_markOptional hprimitive
        · split at h
          · cases h
            exact known_markOptional trivial
          · cases h

/-! ## Members and items -/

theorem buildAttribute_scope {scope : AttributeScope} {item : Tree.AttributeItem} {a : Attribute}
    (h : buildAttribute scope item = .ok a) : a.scope = scope := by
  unfold buildAttribute at h
  split at h
  · cases h
  · cases h; rfl

theorem buildAttributes_scope {scope : AttributeScope} {brackets : List Tree.Attribute}
    {attributes : List Attribute} (h : buildAttributes scope brackets = .ok attributes) :
    ∀ a ∈ attributes, a.scope = scope := by
  intro a ha
  obtain ⟨item, -, hitem⟩ := exists_of_mem_mapM h ha
  exact buildAttribute_scope hitem

theorem buildField_built {t : Tree.Field} {f : Field} (h : buildField t = .ok f) : f.Built := by
  simp only [buildField, bind_eq_ok_iff] at h
  obtain ⟨type, htype, attributes, hattributes, hf⟩ := h
  cases hf
  exact ⟨buildAttributes_scope hattributes, buildType_known htype, rfl, rfl⟩

theorem buildVariant_built {t : Tree.Variant} {v : Variant} (h : buildVariant t = .ok v) :
    v.Built := by
  simp only [buildVariant, bind_eq_ok_iff] at h
  obtain ⟨payload, hpayload, attributes, hattributes, hv⟩ := h
  cases hv
  refine ⟨buildAttributes_scope hattributes, fun type htype => ?_⟩
  cases ht : t.payload with
  | none =>
    rw [ht] at hpayload
    cases hpayload
    cases htype
  | some p =>
    rw [ht] at hpayload
    cases hp : buildType p with
    | error e =>
      simp only [Option.mapM_some, hp] at hpayload
      cases hpayload
    | ok built =>
      simp only [Option.mapM_some, hp] at hpayload
      cases hpayload
      cases htype
      exact buildType_known hp

/-- What the parts of an item are built from. -/
inductive BuiltFrom : Tree.Item → Item → Prop
  | struct {s : Tree.Struct} {fields : List Field} {attributes : List Attribute}
      (hname : startsUpper s.name = true) (hfields : s.fields.mapM buildField = .ok fields)
      (hattributes : buildAttributes .type s.attributes = .ok attributes) :
      BuiltFrom (.struct s) (.struct {
        name := s.name, role := s.role, fields, attributes, location := s.location })
  | enum {e : Tree.Enum} {variants : List Variant} {attributes : List Attribute}
      (hname : startsUpper e.name = true) (hvariants : e.variants.mapM buildVariant = .ok variants)
      (hattributes : buildAttributes .type e.attributes = .ok attributes) :
      BuiltFrom (.enum e) (.enum {
        name := e.name, variants, attributes, location := e.location })

theorem startsUpper_of_checkName {what name : String} {location : Location}
    (h : checkName what name location = .ok ()) : startsUpper name = true := by
  unfold checkName at h
  split at h
  · next hupper => exact hupper
  · cases h

theorem builtFrom_of_buildItem {t : Tree.Item} {i : Item} (h : buildItem t = .ok i) :
    BuiltFrom t i := by
  cases t with
  | struct s =>
    simp only [buildItem, bind_eq_ok_iff] at h
    obtain ⟨_, hname, fields, hfields, attributes, hattributes, h⟩ := h
    cases h
    exact .struct (startsUpper_of_checkName hname) hfields hattributes
  | enum e =>
    simp only [buildItem, bind_eq_ok_iff] at h
    obtain ⟨_, hname, variants, hvariants, attributes, hattributes, h⟩ := h
    cases h
    exact .enum (startsUpper_of_checkName hname) hvariants hattributes

theorem buildItem_built {t : Tree.Item} {i : Item} (h : buildItem t = .ok i) : i.Built := by
  cases builtFrom_of_buildItem h with
  | struct _ hfields _ =>
    intro f hf
    obtain ⟨t, -, ht⟩ := exists_of_mem_mapM hfields hf
    exact buildField_built ht
  | enum _ hvariants _ =>
    intro v hv
    obtain ⟨t, -, ht⟩ := exists_of_mem_mapM hvariants hv
    exact buildVariant_built ht

theorem mem_items_buildMethod {t : Tree.Method} {i : Item} :
    i ∈ (buildMethod t).items ↔ ∃ d ∈ t.items, buildItem d = .ok i := by
  refine List.mem_filterMap.trans (exists_congr fun d => and_congr_right fun _ => ?_)
  rw [builtItem?]
  cases buildItem d with
  | ok built => exact ⟨fun h => congrArg Except.ok (Option.some.inj h), fun h => by cases h; rfl⟩
  | error e => exact ⟨nofun, nofun⟩

/-! ## Schemas -/

theorem built_of_mem_build {source : Tree.Source} {e : Endpoint} {m : Method} {i : Item}
    (he : e ∈ (build source).schema.endpoints) (hm : m ∈ e.methods) (hi : i ∈ m.items) :
    i.Built := by
  obtain ⟨te, -, rfl⟩ := List.mem_map.mp he
  obtain ⟨tm, -, rfl⟩ := List.mem_map.mp hm
  obtain ⟨ti, -, hbuilt⟩ := mem_items_buildMethod.mp hi
  exact buildItem_built hbuilt

end Schema
end EndpointDsl
