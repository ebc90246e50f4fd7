import EndpointDsl.Proofs.Client.Classes
import EndpointDsl.Proofs.Client.Documentation
import EndpointDsl.Proofs.Tree.Names

/-!
What the documentation of a module is put together of.

Of the schema it shows names, types, wire names and paths, the last two escaped.  All other text in
it is bare.  So every property that texts put together keep holds of the documentation if it holds
of what is shown.
-/

namespace EndpointDsl

open Text

namespace Schema

variable (good : String → Prop)

/-- The texts that documentation shows of a field. -/
structure Field.Shows (f : Field) : Prop where
  name : isIdent f.name.toList = true
  type : good f.type.describe
  wire : good (Client.Docs.escape (f.wireName.getD f.name))

structure Variant.Shows (v : Variant) : Prop where
  name : isIdent v.name.toList = true
  payload : ∀ type ∈ v.payload, good type.describe
  wire : good (Client.Docs.escape (v.wireName.getD v.name))

def Item.Shows : Item → Prop
  | .struct s => ∀ f ∈ s.fields, f.Shows good
  | .enum e => ∀ v ∈ e.variants, v.Shows good

structure Method.Shows (m : Method) : Prop where
  path : good (Client.Docs.escape m.path.raw)
  items : ∀ i ∈ m.items, i.Shows good

structure Endpoint.Shows (e : Endpoint) : Prop where
  name : isIdent e.name.toList = true
  methods : ∀ m ∈ e.methods, m.Shows good

end Schema

namespace Client

open Schema (Endpoint Entry Item Method Struct Enum Field Variant)

theorem mem_of_mem_entriesFrom {index : Nat} {methods : List Method} {x : Entry}
    (h : x ∈ Schema.entriesFrom index methods) : x.method ∈ methods ∧ x.item ∈ x.method.items := by
  induction methods generalizing index with
  | nil => cases h
  | cons m rest ih =>
    rcases List.mem_append.mp h with h | h
    · obtain ⟨i, hi, rfl⟩ := List.mem_map.mp h
      exact ⟨List.mem_cons_self, hi⟩
    · obtain ⟨hmethod, hitem⟩ := ih h
      exact ⟨List.mem_cons_of_mem m hmethod, hitem⟩

section

variable {good : String → Prop} (hgood : Composable good) {m : Method}

include hgood

/-! ## Texts -/

namespace Docs

theorem holds_code {s : String} (h : good s) : good (code s) :=
  hgood.append (hgood.append (hgood.chars (by decide)) h) (hgood.chars (by decide))

theorem holds_joinLines {texts : List String} (h : ∀ t ∈ texts, good t) : good (joinLines texts) :=
  hgood.intercalate (hgood.chars (by decide)) h

theorem holds_attributeName {name : String} (h : isIdent name.toList = true) :
    good (Name.attributeName name) :=
  hgood.ident (Name.attributeName_spec (Name.wordChars_of_isIdent h)).1.ident

theorem holds_route (h : m.Shows good) : good (route m) := by
  have hverb : good m.verb.name := by cases m.verb <;> exact hgood.chars (by decide)
  exact holds_code hgood (hgood.append (hgood.append hverb (hgood.chars (by decide))) h.path)

theorem holds_about (h : m.Shows good) {before after : List Char} (hbefore : IsBare before)
    (hafter : IsBare after) : good (String.ofList before ++ route m ++ String.ofList after) :=
  hgood.append (hgood.append (hgood.chars hbefore) (holds_route hgood h)) (hgood.chars hafter)

theorem holds_module {e : Endpoint} (h : e.Shows good) : good (module_ e) := by
  have hname := holds_code hgood (hgood.ident h.name)
  refine holds_joinLines hgood (List.forall_mem_cons.mpr ⟨?_, List.forall_mem_cons.mpr ⟨?_, ?_⟩⟩)
  · cases e.isPublic <;>
    · refine hgood.append (hgood.append (hgood.append ?_ ?_) hname) ?_ <;>
        exact hgood.chars (by decide)
  · exact hgood.chars (by decide)
  · split
    · exact List.forall_mem_singleton.mpr (hgood.chars (by decide))
    · refine List.forall_mem_cons.mpr ⟨hgood.chars (by decide), List.forall_mem_map.mpr ?_⟩
      exact fun m hm => hgood.append (hgood.chars (by decide)) (holds_route hgood (h.methods m hm))

theorem holds_absenceSentence (f : Field) : good (absenceSentence f) := by
  have hnone : good (code "None") := holds_code hgood (hgood.chars (by decide))
  unfold absenceSentence
  split
  · exact hgood.chars (by decide)
  · split
    · exact hgood.chars (by decide)
    · split
      · exact hgood.append (hgood.append (hgood.chars (by decide)) hnone) (hgood.chars (by decide))
      · split
        · exact hgood.chars (by decide)
        · exact hgood.append (hgood.append (hgood.chars (by decide)) hnone)
            (hgood.chars (by decide))

theorem holds_fieldLine {f : Field} (parameters : List String) (h : f.Shows good) :
    good (fieldLine parameters f) := by
  have hspace : good " " := hgood.chars (by decide)
  have hstop : good "." := hgood.chars (by decide)
  have htype := holds_code hgood h.type
  have hwire := holds_code hgood h.wire
  have hplace : good (code ("\x7b" ++ f.name ++ "\x7d")) :=
    holds_code hgood (hgood.append (hgood.append (hgood.chars (by decide)) (hgood.ident h.name))
      (hgood.chars (by decide)))
  refine hgood.append (hgood.append (holds_attributeName hgood h.name) (hgood.chars (by decide)))
    (hgood.intercalate hspace ?_)
  simp only [List.forall_mem_append, List.forall_mem_cons]
  refine ⟨⟨⟨?_, holds_absenceSentence hgood f, nofun⟩, ?_⟩, ?_⟩
  · exact hgood.append (hgood.append (hgood.append htype (hgood.chars (by decide))) hwire) hstop
  · split
    · exact List.forall_mem_singleton.mpr
        (hgood.append (hgood.append (hgood.chars (by decide)) hplace) hstop)
    · exact nofun
  · split
    · exact List.forall_mem_singleton.mpr (hgood.chars (by decide))
    · exact nofun

theorem holds_struct {s : Struct} (hm : m.Shows good) (h : (Item.struct s).Shows good) :
    good (struct m s) := by
  have hcapability : good (capabilitySentence s.capability) := by
    unfold capabilitySentence
    repeat' split
    all_goals exact hgood.chars (by decide)
  have hrole : good (roleSummary s.role) := by
    cases s.role with
    | none => exact hgood.chars (by decide)
    | some role => cases role <;> exact hgood.chars (by decide)
  refine holds_joinLines hgood (List.forall_mem_append.mpr ⟨?_, ?_⟩)
  · refine List.forall_mem_cons.mpr ⟨?_, List.forall_mem_cons.mpr
      ⟨hgood.chars (by decide), List.forall_mem_singleton.mpr hcapability⟩⟩
    exact hgood.append (hgood.append (hgood.append hrole (hgood.chars (by decide)))
      (holds_route hgood hm)) (hgood.chars (by decide))
  · split
    · exact nofun
    · refine List.forall_mem_append.mpr ⟨?_, List.forall_mem_map.mpr fun f hf => ?_⟩
      · exact List.forall_mem_cons.mpr ⟨hgood.chars (by decide),
          List.forall_mem_singleton.mpr (hgood.chars (by decide))⟩
      · exact hgood.append (hgood.chars (by decide)) (holds_fieldLine hgood _ (h f hf))

theorem holds_variantLine {v : Variant} (h : v.Shows good) : good (variantLine v) := by
  have hspaces : good "    " := hgood.chars (by decide)
  have hcolon : good ": " := hgood.chars (by decide)
  have hstop : good "." := hgood.chars (by decide)
  have hstart := hgood.append (hgood.append hspaces (holds_attributeName hgood h.name)) hcolon
  have hwire := hgood.append hstart (holds_code hgood h.wire)
  unfold variantLine
  cases hpayload : v.payload with
  | none => exact hgood.append hwire hstop
  | some type =>
    have htype := holds_code hgood (h.payload type hpayload)
    exact hgood.append (hgood.append (hgood.append hwire (hgood.chars (by decide))) htype) hstop

theorem holds_enum {e : Enum} (hm : m.Shows good) (h : (Item.enum e).Shows good) :
    good (enum m e) := by
  refine holds_joinLines hgood (List.forall_mem_append.mpr ⟨?_, ?_⟩)
  · simp only [List.forall_mem_cons, List.not_mem_nil, false_imp_iff, implies_true, and_true]
    refine ⟨holds_about hgood hm (by decide) (by decide), ?_⟩
    and_intros <;> exact hgood.chars (by decide)
  · exact List.forall_mem_map.mpr fun v hv => holds_variantLine hgood (h v hv)

theorem holds_uri (hm : m.Shows good) (hasQuery : Bool) : good (uri m hasQuery) := by
  refine holds_joinLines hgood
    (List.forall_mem_append.mpr ⟨List.forall_mem_append.mpr ⟨?_, ?_⟩, ?_⟩)
  · exact List.forall_mem_singleton.mpr (holds_about hgood hm (by decide) (by decide))
  · split
    · exact nofun
    · exact List.forall_mem_cons.mpr
        ⟨hgood.chars (by decide), List.forall_mem_singleton.mpr (hgood.chars (by decide))⟩
  · split
    · exact List.forall_mem_singleton.mpr (hgood.chars (by decide))
    · exact nofun

theorem holds_response {s : Struct} (hm : m.Shows good) (h : (Item.struct s).Shows good) :
    good (response m s) := by
  have hsummary : good s!"Decode the body of a {route m} response." :=
    holds_about hgood hm (by decide) (by decide)
  unfold response
  cases herror : s.errorField? with
  | none => exact hsummary
  | some f =>
    have hname := (h f (List.mem_of_find?_eq_some herror)).name
    have hattr := holds_code hgood (holds_attributeName hgood hname)
    have hcall := holds_code hgood (hgood.chars (show IsBare "is_error()".toList by decide))
    refine holds_joinLines hgood (List.forall_mem_cons.mpr ⟨hsummary, List.forall_mem_cons.mpr
      ⟨hgood.chars (by decide), List.forall_mem_cons.mpr ⟨?_, List.forall_mem_singleton.mpr ?_⟩⟩⟩)
    · exact hgood.append (hgood.append (hgood.append (hgood.chars (by decide)) hcall)
        (hgood.chars (by decide))) hattr
    · exact hgood.chars (by decide)

end Docs

/-! ## Declarations -/

theorem holds_itemClass {className : String → Gen String} {i : Item} {c : ClassDef}
    (hm : m.Shows good) (hi : i.Shows good) (h : itemClass className m i = .ok c) :
    good c.doc := by
  cases i with
  | struct s =>
    obtain ⟨base, fields, -, -, rfl⟩ := structClass_eq_ok_iff.mp h
    dsimp only
    exact Docs.holds_struct hgood hm hi
  | enum e =>
    obtain ⟨fields, -, -, -, rfl⟩ := enumClass_eq_ok_iff.mp h
    dsimp only
    exact Docs.holds_enum hgood hm hi

omit hgood in
theorem shows_of_findRole? (hm : m.Shows good) {role : Option Role} {s : Struct}
    (h : m.findRole? role = some s) : (Item.struct s).Shows good :=
  hm.items _ (Schema.mem_items_of_findRole? h)

theorem holds_methodFunctions (hm : m.Shows good) {functions : List FunctionDef} {f : FunctionDef}
    (h : methodFunctions m = .ok functions) (hf : f ∈ functions) : good f.doc := by
  obtain ⟨values, -, hmade⟩ := functionOf_of_mem h hf
  cases hmade with
  | uri => exact Docs.holds_uri hgood hm _
  | request => exact Docs.holds_about hgood hm (by decide) (by decide)
  | response hs => exact Docs.holds_response hgood hm (shows_of_findRole? hm hs)
  | headers => exact Docs.holds_about hgood hm (by decide) (by decide)

/-- What holds of all that is shown holds of all documentation. -/
theorem holds_of_mem_docs {unit : String} {e : Endpoint} {module : Module} (he : e.Shows good)
    (h : ofEndpoint unit e = .ok module) : ∀ doc ∈ module.docs, good doc := by
  obtain ⟨parts, hparts, h⟩ := bind_eq_ok_iff.mp h
  cases h
  intro doc hdoc
  rw [Module.docs, List.mem_append, List.mem_cons] at hdoc
  rcases hdoc with (rfl | hclass) | hfunction
  · dsimp only
    exact Docs.holds_module hgood he
  · obtain ⟨c, hc, rfl⟩ := List.mem_map.mp hclass
    obtain ⟨x, hx, hmade⟩ := exists_of_mem_forall₂ (classes_partsFrom hparts) hc
    obtain ⟨hmethod, hitem⟩ := mem_of_mem_entriesFrom hx
    have hm := he.methods x.method hmethod
    exact holds_itemClass hgood hm (hm.items x.item hitem) hmade
  · obtain ⟨f, hf, rfl⟩ := List.mem_map.mp hfunction
    obtain ⟨m, hm, functions, hfunctions, hmem⟩ := exists_of_mem_functions hparts hf
    exact holds_methodFunctions hgood (he.methods m hm) hfunctions hmem

end

end Client
end EndpointDsl
