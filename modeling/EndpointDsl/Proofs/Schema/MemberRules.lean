import EndpointDsl.Proofs.Lists
import EndpointDsl.Proofs.Schema.WellFormed

/-!
The rules of one structure or enum are silent exactly when it is well formed.

Rules about the attributes of a member look only at attributes that stand before a member.  In a
schema that was built from a tree there are no others, which `Scoped` says.
-/

namespace EndpointDsl
namespace Schema

/-- Every attribute of the list stands before a member. -/
def Scoped (attributes : List Attribute) : Prop := ∀ a ∈ attributes, a.scope = .field

/-! ## Attributes of a type -/

theorem ofName?_isSome_iff {style : String} :
    (Casing.Style.ofName? style).isSome = true ↔ ∃ s : Casing.Style, s.name = style := by
  constructor
  · intro h
    obtain ⟨s, hs⟩ := Option.isSome_iff_exists.mp h
    exact ⟨s, by simpa using List.find?_some hs⟩
  · rintro ⟨s, rfl⟩
    rw [Casing.Style.ofName?_name]
    rfl

theorem isRenameAll_iff {a : Attribute} :
    isRenameAll a = true ↔ ∃ style, a.kind = .renameAll style := by
  unfold isRenameAll
  split
  · next style h => simp [h]
  · next h => simpa using fun style hs => h style hs

theorem isRename_iff {a : Attribute} : isRename a = true ↔ ∃ name, a.kind = .rename name := by
  unfold isRename
  split
  · next name h => simp [h]
  · next h => simpa using fun name hs => h name hs

/-- The walk counts the style that came before as one of those that it may meet. -/
theorem typeAttributeErrors_eq_nil_iff' {owner : Owner} {styled : Bool}
    {attributes : List Attribute} :
    typeAttributeErrors owner styled attributes = [] ↔
      (∀ a ∈ attributes, a.kind = .builder ∨ isRenameAll a = true) ∧
        attributes.countP isRenameAll + styled.toNat ≤ 1 ∧
        ∀ a ∈ attributes, ∀ style, a.kind = .renameAll style →
          ∃ s : Casing.Style, s.name = style := by
  induction attributes generalizing styled with
  | nil => cases styled <;> simp [typeAttributeErrors]
  | cons a rest ih =>
    cases hkind : a.kind with
    | default => simp [typeAttributeErrors, hkind, isRenameAll]
    | rename name => simp [typeAttributeErrors, hkind, isRenameAll]
    | isError => simp [typeAttributeErrors, hkind, isRenameAll]
    | builder => simp [typeAttributeErrors, hkind, isRenameAll, ih]
    | renameAll style =>
      have ha : isRenameAll a = true := isRenameAll_iff.mpr ⟨style, hkind⟩
      cases styled with
      | true => simp [typeAttributeErrors, hkind, ha]
      | false =>
        by_cases hstyle : ∃ s : Casing.Style, s.name = style
        · have hknown := ofName?_isSome_iff.mpr hstyle
          simp [typeAttributeErrors, hkind, ha, hknown, hstyle, ih]
        · have hunknown : (Casing.Style.ofName? style).isSome = false := by
            rw [Bool.eq_false_iff, ne_eq, ofName?_isSome_iff]
            exact hstyle
          have hnone : ¬ ∀ a' ∈ a :: rest, ∀ style, a'.kind = .renameAll style →
              ∃ s : Casing.Style, s.name = style :=
            fun h => hstyle (h a List.mem_cons_self style hkind)
          simp only [typeAttributeErrors, hkind, hunknown, hnone, Bool.false_eq_true, if_false,
            and_false, reduceCtorEq]

theorem typeAttributeErrors_eq_nil_iff {owner : Owner} {attributes : List Attribute} :
    typeAttributeErrors owner false attributes = [] ↔ TypeAttributes attributes := by
  rw [typeAttributeErrors_eq_nil_iff']
  exact ⟨fun h => ⟨h.1, h.2.1, h.2.2⟩, fun h => ⟨h.placed, h.styledOnce, h.styleKnown⟩⟩

/-! ## Attributes of a member -/

theorem memberAttributeErrors_eq_nil_iff' {owner : Owner} {renamed : Bool}
    {attributes : List Attribute} (hscope : Scoped attributes) :
    memberAttributeErrors owner renamed attributes = [] ↔
      (∀ a ∈ attributes, a.kind ≠ .builder ∧ isRenameAll a = false) ∧
        attributes.countP isRename + renamed.toNat ≤ 1 ∧
        ∀ a ∈ attributes, a.kind ≠ .rename "" := by
  induction attributes generalizing renamed with
  | nil => cases renamed <;> simp [memberAttributeErrors]
  | cons a rest ih =>
    obtain ⟨ha, hrest⟩ := List.forall_mem_cons.mp hscope
    cases hkind : a.kind with
    | default => simp [memberAttributeErrors, ha, hkind, isRename, isRenameAll, ih hrest]
    | isError => simp [memberAttributeErrors, ha, hkind, isRename, isRenameAll, ih hrest]
    | builder => simp [memberAttributeErrors, ha, hkind]
    | renameAll style => simp [memberAttributeErrors, ha, hkind, isRenameAll]
    | rename name =>
      have hrename : isRename a = true := isRename_iff.mpr ⟨name, hkind⟩
      cases renamed with
      | true => simp [memberAttributeErrors, ha, hkind, hrename]
      | false =>
        by_cases hname : name = ""
        · simp [memberAttributeErrors, ha, hkind, hname]
        · simp [memberAttributeErrors, ha, hkind, hname, hrename, isRenameAll, ih hrest]

theorem memberAttributeErrors_eq_nil_iff {owner : Owner} {attributes : List Attribute}
    (hscope : Scoped attributes) :
    memberAttributeErrors owner false attributes = [] ↔ MemberAttributes attributes := by
  rw [memberAttributeErrors_eq_nil_iff' hscope]
  exact ⟨fun h => ⟨h.1, h.2.1, h.2.2⟩, fun h => ⟨h.placed, h.renamedOnce, h.renameGiven⟩⟩

/-! ## Fields -/

theorem zeroBlocker?_eq_none_iff {type : TypeDesc} : zeroBlocker? type = none ↔ HasZero type := by
  cases type <;> simp [zeroBlocker?, HasZero]

theorem defaultMarkers_eq_filter {f : Field} (hscope : Scoped f.attributes) :
    defaultMarkers f = f.attributes.filter (·.kind == .default) := by
  refine List.filter_congr fun a ha => ?_
  rw [hscope a ha]
  simp

theorem defaultErrors_eq_nil_iff {owner : Owner} {decoded : Bool} {f : Field}
    (hscope : Scoped f.attributes) :
    defaultErrors owner decoded f = [] ↔ FieldDefault decoded f := by
  have hcount : f.attributes.countP (·.kind == .default) = (defaultMarkers f).length := by
    rw [defaultMarkers_eq_filter hscope, List.countP_eq_length_filter]
  have hmem : ∀ a, a ∈ defaultMarkers f ↔ a ∈ f.attributes ∧ a.kind = .default := by
    intro a
    rw [defaultMarkers_eq_filter hscope, List.mem_filter, beq_iff_eq]
  unfold defaultErrors
  split
  · next hmarkers =>
    rw [hmarkers] at hcount hmem
    simp only [true_iff]
    refine ⟨by rw [hcount]; exact Nat.zero_le 1, ?_⟩
    rintro ⟨a, ha, hkind⟩
    exact absurd ((hmem a).mpr ⟨ha, hkind⟩) List.not_mem_nil
  · next marker extra hmarkers =>
    rw [hmarkers] at hcount hmem
    have hgiven : ∃ a ∈ f.attributes, a.kind = .default :=
      ⟨marker, (hmem marker).mp List.mem_cons_self⟩
    have honce : f.attributes.countP (·.kind == .default) ≤ 1 ↔ extra = [] := by
      rw [hcount, List.length_cons, ← List.length_eq_zero_iff]
      omega
    have hiff : FieldDefault decoded f ↔
        extra = [] ∧ decoded = true ∧ zeroBlocker? f.type = none := by
      rw [zeroBlocker?_eq_none_iff]
      constructor
      · exact fun h => ⟨honce.mp h.once, h.granted hgiven⟩
      · exact fun h => ⟨honce.mpr h.1, fun _ => h.2⟩
    rw [hiff, List.append_eq_nil_iff, List.map_eq_nil_iff]
    refine and_congr_right fun _ => ?_
    cases decoded <;> cases zeroBlocker? f.type <;> simp

theorem fieldErrors_eq_nil_iff {owner : Owner} {cap : Capability} {names : List String}
    {fields : List Field} (hscope : ∀ f ∈ fields, Scoped f.attributes) :
    fieldErrors owner cap names fields = [] ↔ Fresh Field.name names fields ∧
      ∀ f ∈ fields, MemberAttributes f.attributes ∧ FieldDefault cap.decode f := by
  induction fields generalizing names with
  | nil => simp [fieldErrors]
  | cons f rest ih =>
    obtain ⟨hf, hrest⟩ := List.forall_mem_cons.mp hscope
    rw [fresh_cons, List.forall_mem_cons]
    by_cases hname : f.name ∈ names
    · simp [fieldErrors, hname]
    · rw [fieldErrors, if_neg (by simpa using hname), List.append_eq_nil_iff,
        List.append_eq_nil_iff, memberAttributeErrors_eq_nil_iff hf, defaultErrors_eq_nil_iff hf,
        ih hrest]
      tauto

/-! ## Clashes between members -/

theorem wireClash_eq_nil_iff {owner : Owner} {wires : List (String × String)} {m : Member} :
    wireClash owner wires m = [] ↔ m.wire ∉ wires.map (·.1) := by
  rw [← lookup?_eq_none_iff]
  unfold wireClash
  split <;> simp_all

/-- A clash of attributes is not reported between members of one name, which are reported as such.
So the table must hold no entry of the member's own name. -/
theorem attributeClash_eq_nil_iff {owner : Owner} {attrs : List (String × String)} {m : Member}
    (hnames : m.name ∉ attrs.map (·.2)) :
    attributeClash owner attrs m = [] ↔ Name.attributeName m.name ∉ attrs.map (·.1) := by
  rw [← lookup?_eq_none_iff]
  unfold attributeClash
  simp only
  split
  · next other hother =>
    have hne : other ≠ m.name := by
      rintro rfl
      exact hnames (List.mem_map.mpr ⟨_, mem_of_lookup? hother, rfl⟩)
    simp [hother, hne]
  · next hnone => simp [hnone]

theorem keepFirst_of_not_mem {key value : String} {table : List (String × String)}
    (h : key ∉ table.map (·.1)) : keepFirst key value table = (key, value) :: table := by
  rw [keepFirst, lookup?_eq_none_iff.mpr h]

theorem clashErrors_eq_nil_iff' {owner : Owner} {wires attrs : List (String × String)}
    {members : List Member} (hnames : Fresh Member.name (attrs.map (·.2)) members) :
    clashErrors owner wires attrs members = [] ↔
      Fresh Member.wire (wires.map (·.1)) members ∧
        Fresh (fun m => Name.attributeName m.name) (attrs.map (·.1)) members := by
  induction members generalizing wires attrs with
  | nil => simp [clashErrors]
  | cons m rest ih =>
    obtain ⟨hname, hrest⟩ := fresh_cons.mp hnames
    rw [clashErrors, List.append_eq_nil_iff, List.append_eq_nil_iff, wireClash_eq_nil_iff,
      attributeClash_eq_nil_iff hname, fresh_cons, fresh_cons]
    by_cases hwire : m.wire ∈ wires.map (·.1)
    · simp [hwire]
    · by_cases hattr : Name.attributeName m.name ∈ attrs.map (·.1)
      · simp [hattr]
      · have hlater : Fresh Member.name
            (((Name.attributeName m.name, m.name) :: attrs).map (·.2)) rest := hrest
        rw [keepFirst_of_not_mem hwire, keepFirst_of_not_mem hattr, ih hlater]
        simp only [List.map_cons]
        tauto

theorem clashErrors_eq_nil_iff {owner : Owner} {members : List Member}
    (hnames : (members.map (·.name)).Nodup) :
    clashErrors owner [] [] members = [] ↔
      (members.map (·.wire)).Nodup ∧ (members.map fun m => Name.attributeName m.name).Nodup := by
  have hfresh : Fresh Member.name (([] : List (String × String)).map (·.2)) members :=
    fresh_nil_seen.mpr hnames
  rw [clashErrors_eq_nil_iff' hfresh]
  exact and_congr fresh_nil_seen fresh_nil_seen

/-! ## Structures -/

theorem errorMarker?_isSome_iff {f : Field} (hscope : Scoped f.attributes) :
    (errorMarker? f).isSome = f.signalsError := by
  unfold errorMarker? Field.signalsError
  split
  · next a ha =>
    have hmem := List.mem_of_find?_eq_some ha
    rw [if_pos (hscope a hmem), Option.isSome_some]
    exact (List.any_eq_true.mpr ⟨a, hmem, List.find?_some ha⟩).symm
  · next hnone =>
    rw [List.find?_eq_none] at hnone
    rw [Option.isSome_none, eq_comm, Bool.eq_false_iff, ne_eq, List.any_eq_true]
    rintro ⟨a, ha, hkind⟩
    exact hnone a ha hkind

theorem markerErrors_eq_nil_iff {s : Struct} :
    markerErrors s = [] ↔ s.marked.length ≤ 1 ∧ (s.marked ≠ [] → s.capability.decode = true) := by
  unfold markerErrors
  split
  · next h => simp [h]
  · next marker extra h =>
    rw [h]
    cases s.capability.decode <;> simp

/-- The marked fields, in a structure whose field names differ. -/
theorem length_marked {s : Struct} (hnames : (s.fields.map (·.name)).Nodup)
    (hscope : ∀ f ∈ s.fields, Scoped f.attributes) :
    s.marked.length = s.fields.countP Field.signalsError := by
  rw [Struct.marked, Struct.distinctFields, distinct_eq_self (fresh_nil_seen.mpr hnames),
    List.length_filterMap_eq_countP]
  refine List.countP_congr fun f hf => ?_
  rw [Option.isSome_map, errorMarker?_isSome_iff (hscope f hf)]

theorem members_eq_map {s : Struct} (hnames : (s.fields.map (·.name)).Nodup) :
    s.members = s.fields.map fun f =>
      ⟨f.name, wireName (typeStyle s.attributes) f.attributes f.name, f.location⟩ := by
  rw [Struct.members, Struct.distinctFields, distinct_eq_self (fresh_nil_seen.mpr hnames)]

theorem structErrors_eq_nil_iff {s : Struct} (hscope : ∀ f ∈ s.fields, Scoped f.attributes) :
    structErrors s = [] ↔ s.WellFormed := by
  rw [structErrors, List.append_eq_nil_iff, List.append_eq_nil_iff, List.append_eq_nil_iff,
    typeAttributeErrors_eq_nil_iff, fieldErrors_eq_nil_iff hscope, markerErrors_eq_nil_iff]
  -- The other rules read the fields without repetitions, so different names come first.
  by_cases hnames : (s.fields.map (·.name)).Nodup
  · have hmembers := members_eq_map hnames
    have hcount := length_marked hnames hscope
    have hmarked : s.marked ≠ [] ↔ ∃ f ∈ s.fields, f.signalsError = true := by
      rw [← List.length_pos_iff, hcount, List.countP_pos_iff]
    rw [clashErrors_eq_nil_iff (by simpa [hmembers, Function.comp_def] using hnames), hcount,
      hmarked, hmembers]
    simp only [List.map_map, Function.comp_def]
    constructor
    · rintro ⟨⟨⟨hattrs, -, hfields⟩, hwires, hattributes⟩, honce, hdecoded⟩
      exact ⟨hattrs, hnames, fun f hf => (hfields f hf).1, fun f hf => (hfields f hf).2, honce,
        fun f hf hm => hdecoded ⟨f, hf, hm⟩, hwires, hattributes⟩
    · intro h
      exact ⟨⟨⟨h.attributes, fresh_nil_seen.mpr h.fieldNames,
          fun f hf => ⟨h.members f hf, h.defaults f hf⟩⟩, h.wires, h.attrs⟩, h.errorOnce,
        fun ⟨f, hf, hm⟩ => h.errorDecoded f hf hm⟩
  · constructor
    · rintro ⟨⟨⟨-, hfresh, -⟩, -⟩, -⟩
      exact absurd (fresh_nil_seen.mp hfresh) hnames
    · exact fun h => absurd h.fieldNames hnames

/-! ## Enums -/

theorem variantAttributeErrors_eq_nil_iff {owner : Owner} {attributes : List Attribute} :
    variantAttributeErrors owner attributes = [] ↔
      ∀ a ∈ attributes, a.kind ≠ .isError ∧ a.kind ≠ .default := by
  rw [variantAttributeErrors, List.filterMap_eq_nil_iff]
  refine forall₂_congr fun a _ => ?_
  cases a.kind <;> simp

theorem variantErrors_eq_nil_iff {owner : Owner} {names : List String} {variants : List Variant}
    (hscope : ∀ v ∈ variants, Scoped v.attributes) :
    variantErrors owner names variants = [] ↔ Fresh Variant.name names variants ∧
      ∀ v ∈ variants, MemberAttributes v.attributes ∧
        ∀ a ∈ v.attributes, a.kind ≠ .isError ∧ a.kind ≠ .default := by
  induction variants generalizing names with
  | nil => simp [variantErrors]
  | cons v rest ih =>
    obtain ⟨hv, hrest⟩ := List.forall_mem_cons.mp hscope
    rw [fresh_cons, List.forall_mem_cons]
    by_cases hname : v.name ∈ names
    · simp [variantErrors, hname]
    · rw [variantErrors, if_neg (by simpa using hname), List.append_eq_nil_iff,
        List.append_eq_nil_iff, memberAttributeErrors_eq_nil_iff hv,
        variantAttributeErrors_eq_nil_iff, ih hrest]
      tauto

theorem enumMembers_eq_map {e : Enum} (hnames : (e.variants.map (·.name)).Nodup) :
    e.members = e.variants.map fun v =>
      ⟨v.name, wireName (typeStyle e.attributes) v.attributes v.name, v.location⟩ := by
  rw [Enum.members, distinct_eq_self (fresh_nil_seen.mpr hnames)]

theorem enumErrors_eq_nil_iff {e : Enum} (hscope : ∀ v ∈ e.variants, Scoped v.attributes) :
    enumErrors e = [] ↔ e.WellFormed := by
  have hbuilder : (e.attributes.filter (·.kind == .builder)).map
      (fun a => (⟨.misplacedBuilder e.owner, a.location⟩ : SemanticError)) = [] ↔
      ∀ a ∈ e.attributes, a.kind ≠ .builder := by
    rw [List.map_eq_nil_iff, List.filter_eq_nil_iff]
    simp
  rw [enumErrors, List.append_eq_nil_iff, List.append_eq_nil_iff, typeAttributeErrors_eq_nil_iff,
    hbuilder]
  by_cases hvariants : e.variants = []
  · rw [if_pos (by simp [hvariants])]
    simp only [reduceCtorEq, and_false, false_iff]
    exact fun h => h.inhabited hvariants
  · rw [if_neg (by simpa using hvariants), List.append_eq_nil_iff,
      variantErrors_eq_nil_iff hscope]
    by_cases hnames : (e.variants.map (·.name)).Nodup
    · have hmembers := enumMembers_eq_map hnames
      rw [clashErrors_eq_nil_iff (by simpa [hmembers, Function.comp_def] using hnames), hmembers]
      simp only [List.map_map, Function.comp_def]
      constructor
      · rintro ⟨⟨hattrs, hplain⟩, ⟨-, hmember⟩, hwires, hattributes⟩
        exact ⟨hattrs, hplain, hvariants, hnames, fun v hv => (hmember v hv).1,
          fun v hv => (hmember v hv).2, hwires, hattributes⟩
      · intro h
        exact ⟨⟨h.attributes, h.noBuilder⟩, ⟨fresh_nil_seen.mpr h.variantNames,
          fun v hv => ⟨h.members v hv, h.plain v hv⟩⟩, h.wires, h.attrs⟩
    · constructor
      · rintro ⟨-, ⟨hfresh, -⟩, -⟩
        exact absurd (fresh_nil_seen.mp hfresh) hnames
      · exact fun h => absurd h.variantNames hnames

/-! ## Items -/

/-- Every attribute of a member stands before the member. -/
def Item.Scoped : Item → Prop
  | .struct s => ∀ f ∈ s.fields, Schema.Scoped f.attributes
  | .enum e => ∀ v ∈ e.variants, Schema.Scoped v.attributes

theorem memberErrors_eq_nil_iff {i : Item} (hscope : i.Scoped) :
    memberErrors i = [] ↔ i.WellFormed := by
  cases i with
  | struct s => exact structErrors_eq_nil_iff hscope
  | enum e => exact enumErrors_eq_nil_iff hscope

end Schema
end EndpointDsl
