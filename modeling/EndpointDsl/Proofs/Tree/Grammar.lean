import EndpointDsl.Proofs.Path.Template
import EndpointDsl.Source.Token
import EndpointDsl.Tree.Basic
import Mathlib.Computability.Language
import Mathlib.Order.FixedPoints
import Mathlib.Order.CompletePartialOrder

/-!
The grammar of the endpoint language, and the ways to write a tree in it.

A rule of the grammar is a language of lexemes.  Beside it stand the ways to write one given tree:
they leave open which optional marks are there, and of a structure named after its role whether it
is headed by the role or by `struct`.  Each rule is the union of what its trees are written as.
-/

namespace EndpointDsl

open Computability

namespace Grammar

/-! ## The rules -/

def mark (m : Punct) : Language Lexeme := {[.punct m]}

def word (w : String) : Language Lexeme := {[.ident w]}

def quoted (value : String) : Language Lexeme := {[.literal value]}

def optional (l : Language Lexeme) : Language Lexeme := 1 + l

def braced (l : Language Lexeme) : Language Lexeme := mark .leftBrace * l * mark .rightBrace

theorem mem_mark (m : Punct) : [.punct m] ∈ mark m := rfl

theorem mem_word (w : String) : [.ident w] ∈ word w := rfl

theorem mem_quoted (value : String) : [.literal value] ∈ quoted value := rfl

theorem mem_optional {l : Language Lexeme} {x : List Lexeme} (h : x ∈ l) : x ∈ optional l :=
  Or.inr h

theorem nil_mem_optional (l : Language Lexeme) : [] ∈ optional l := Or.inl rfl

def ident : Language Lexeme := ⨆ name, word name

def string : Language Lexeme := ⨆ value, quoted value

def verb : Language Lexeme := ⨆ v : Verb, word v.name

def role : Language Lexeme := ⨆ r : Role, word r.name

/-- A string that is a path template. -/
def path : Language Lexeme :=
  ⨆ (t : PathTemplate) (_ : PathTemplate.Spells t.segments t.raw.toList), quoted t.raw

def attributeItem : Language Lexeme := string + ident + ident * mark .equals * string

/-- An attribute. -/
def bracketed : Language Lexeme :=
  mark .leftBracket * (attributeItem * (mark .comma * attributeItem)∗) *
    optional (mark .comma) * mark .rightBracket

/-- A type whose arguments are taken from a language. -/
def typeOver (argument : Language Lexeme) : Language Lexeme :=
  optional (mark .question) * ident *
    optional (mark .leftAngle * (argument * (mark .comma * argument)∗) * mark .rightAngle)

theorem typeOver_mono : Monotone typeOver := by
  intro l m h
  unfold typeOver optional
  gcongr

def type : Language Lexeme := OrderHom.lfp ⟨typeOver, typeOver_mono⟩

theorem type_eq : type = typeOver type := (OrderHom.map_lfp _).symm

def field : Language Lexeme := bracketed∗ * ident * mark .colon * type

def fields : Language Lexeme := (field * optional (mark .comma))∗

def variant : Language Lexeme :=
  bracketed∗ * ident * optional (mark .leftParen * type * mark .rightParen)

def variants : Language Lexeme := (variant * optional (mark .comma))∗

def roleStruct : Language Lexeme := role * optional (mark .colon) * braced fields

def namedStruct : Language Lexeme :=
  word "struct" * ident * optional (mark .leftAngle * role * mark .rightAngle) * braced fields

def enum : Language Lexeme := word "enum" * ident * braced variants

def item : Language Lexeme := bracketed∗ * (roleStruct + namedStruct + enum)

def method : Language Lexeme := verb * path * mark .arrow * braced item∗

def endpoint : Language Lexeme :=
  mark .leftBracket * optional (word "pub") * ident * mark .colon * braced method∗ *
    mark .rightBracket

def source : Language Lexeme :=
  1 + endpoint * (optional (mark .comma) * endpoint)∗ * optional (mark .comma)

end Grammar

/-! ## The ways to write a tree -/

namespace Tree

open Grammar

/-- A mark or word that is there or not. -/
def given (b : Bool) (l : Language Lexeme) : Language Lexeme := if b then l else 1

def commaSeparated : List (Language Lexeme) → Language Lexeme
  | [] => 1
  | l :: more => l * (more.map (mark .comma * ·)).prod

theorem commaSeparated_singleton (l : Language Lexeme) : commaSeparated [l] = l := by
  rw [commaSeparated, List.map_nil, List.prod_nil, mul_one]

theorem commaSeparated_cons {l : Language Lexeme} {ls : List (Language Lexeme)} (h : ls ≠ []) :
    commaSeparated (l :: ls) = l * (mark .comma * commaSeparated ls) := by
  cases ls with
  | nil => exact absurd rfl h
  | cons m ms => rw [commaSeparated, commaSeparated, List.map_cons, List.prod_cons, mul_assoc]

def AttributeItem.written (i : AttributeItem) : Language Lexeme :=
  match i.entry with
  | .literal value => quoted value
  | .flag key => word key
  | .setting key value => word key * mark .equals * quoted value

def Attribute.written (a : Attribute) : Language Lexeme :=
  mark .leftBracket * commaSeparated (a.items.map AttributeItem.written) *
    optional (mark .comma) * mark .rightBracket

def writtenAttributes (attrs : List Attribute) : Language Lexeme :=
  (attrs.map Attribute.written).prod

def angled : List (Language Lexeme) → Language Lexeme
  | [] => 1
  | l :: more => mark .leftAngle * commaSeparated (l :: more) * mark .rightAngle

mutual

def TypeExpr.written : TypeExpr → Language Lexeme
  | ⟨name, isOptional, args, _⟩ =>
    given isOptional (mark .question) * word name * angled (writtenArgs args)

def writtenArgs : List TypeExpr → List (Language Lexeme)
  | [] => []
  | t :: more => t.written :: writtenArgs more

end

theorem TypeExpr.written_mk (name : String) (isOptional : Bool) (args : List TypeExpr)
    (place : Location) : TypeExpr.written ⟨name, isOptional, args, place⟩ =
      given isOptional (mark .question) * word name * angled (writtenArgs args) :=
  rfl

def Field.written (f : Field) : Language Lexeme :=
  writtenAttributes f.attributes * word f.name * mark .colon * f.type.written

def writtenPayload : Option TypeExpr → Language Lexeme
  | none => 1
  | some type => mark .leftParen * type.written * mark .rightParen

def Variant.written (v : Variant) : Language Lexeme :=
  writtenAttributes v.attributes * word v.name * writtenPayload v.payload

/-- Members of a block, each with or without a comma. -/
def writtenMembers {α : Type} (w : α → Language Lexeme) (members : List α) : Language Lexeme :=
  (members.map fun m => w m * optional (mark .comma)).prod

def writtenRole : Option Role → Language Lexeme
  | none => 1
  | some r => mark .leftAngle * word r.name * mark .rightAngle

/-- The head of a structure that is named after its role. -/
def Struct.roleHead (s : Struct) : Language Lexeme :=
  ⨆ r : Role, ⨆ (_ : s.role = some r ∧ s.name = r.name), word r.name * optional (mark .colon)

/-- What follows the attributes of an item. -/
def Item.body : Item → Language Lexeme
  | .struct s => (s.roleHead + word "struct" * word s.name * writtenRole s.role) *
      braced (writtenMembers Field.written s.fields)
  | .enum e => word "enum" * word e.name * braced (writtenMembers Variant.written e.variants)

def Item.attributes : Item → List Attribute
  | .struct s => s.attributes
  | .enum e => e.attributes

def Item.withAttributes (attrs : List Attribute) : Item → Item
  | .struct s => .struct { s with attributes := attrs }
  | .enum e => .enum { e with attributes := attrs }

def Item.written (i : Item) : Language Lexeme := writtenAttributes i.attributes * i.body

def Method.written (m : Method) : Language Lexeme :=
  word m.verb.name * quoted m.path.raw * mark .arrow * braced (m.items.map Item.written).prod

def Endpoint.written (e : Endpoint) : Language Lexeme :=
  mark .leftBracket * given e.isPublic (word "pub") * word e.name * mark .colon *
    braced (e.methods.map Method.written).prod * mark .rightBracket

def writtenEndpoints : List Endpoint → Language Lexeme
  | [] => 1
  | e :: more => e.written * (more.map (optional (mark .comma) * ·.written)).prod *
      optional (mark .comma)

/-! ## Trees that can be written -/

def Attribute.WellFormed (a : Attribute) : Prop := a.items ≠ []

def Field.WellFormed (f : Field) : Prop := ∀ a ∈ f.attributes, a.WellFormed

def Variant.WellFormed (v : Variant) : Prop := ∀ a ∈ v.attributes, a.WellFormed

def Item.MembersWellFormed : Item → Prop
  | .struct s => ∀ f ∈ s.fields, f.WellFormed
  | .enum e => ∀ v ∈ e.variants, v.WellFormed

def Item.WellFormed (i : Item) : Prop :=
  (∀ a ∈ i.attributes, a.WellFormed) ∧ i.MembersWellFormed

def Method.WellFormed (m : Method) : Prop :=
  PathTemplate.Spells m.path.segments m.path.raw.toList ∧ ∀ i ∈ m.items, i.WellFormed

def Endpoint.WellFormed (e : Endpoint) : Prop := ∀ m ∈ e.methods, m.WellFormed

end Tree

/-! ## Each rule is the union of what its trees are written as -/

namespace Grammar

section

variable {α β : Type} {l m : Language Lexeme} {p : α → Prop} {q : β → Prop}
  {w : α → Language Lexeme} {v : β → Language Lexeme}

/-- The language is the union of what the values with a property are written as. -/
def IsUnion (l : Language Lexeme) (p : α → Prop) (w : α → Language Lexeme) : Prop :=
  ∀ x, x ∈ l ↔ ∃ a, p a ∧ x ∈ w a

theorem IsUnion.le (h : IsUnion l p w) {a : α} (ha : p a) : w a ≤ l :=
  fun _ hx => (h _).mpr ⟨a, ha, hx⟩

theorem IsUnion.of_le (hle : ∀ a, p a → w a ≤ l) (h : ∀ x ∈ l, ∃ a, p a ∧ x ∈ w a) :
    IsUnion l p w :=
  fun x => ⟨h x, fun ⟨a, ha, hx⟩ => hle a ha hx⟩

theorem isUnion_iSup {ι : Type} (w : ι → Language Lexeme) :
    IsUnion (⨆ i, w i) (fun _ => True) w := by
  intro
  rw [Language.mem_iSup]
  simp

theorem isUnion_iSup₂ {ι : Type} (p : ι → Prop) (w : ι → Language Lexeme) :
    IsUnion (⨆ (i) (_ : p i), w i) p w := by
  intro
  simp only [Language.mem_iSup, exists_prop]

theorem IsUnion.mul (hl : IsUnion l p w) (hm : IsUnion m q v) :
    IsUnion (l * m) (fun c : α × β => p c.1 ∧ q c.2) fun c => w c.1 * v c.2 := by
  refine .of_le (fun c hc => mul_le_mul' (hl.le hc.1) (hm.le hc.2)) fun x hx => ?_
  obtain ⟨y, hy, z, hz, rfl⟩ := Language.mem_mul.mp hx
  obtain ⟨a, ha, hya⟩ := (hl y).mp hy
  obtain ⟨b, hb, hzb⟩ := (hm z).mp hz
  exact ⟨(a, b), ⟨ha, hb⟩, Language.append_mem_mul hya hzb⟩

theorem IsUnion.mul_const (hl : IsUnion l p w) (m : Language Lexeme) :
    IsUnion (l * m) p fun a => w a * m := by
  refine .of_le (fun a ha => mul_le_mul' (hl.le ha) le_rfl) fun x hx => ?_
  obtain ⟨y, hy, z, hz, rfl⟩ := Language.mem_mul.mp hx
  obtain ⟨a, ha, hya⟩ := (hl y).mp hy
  exact ⟨a, ha, Language.append_mem_mul hya hz⟩

theorem IsUnion.const_mul (hl : IsUnion l p w) (m : Language Lexeme) :
    IsUnion (m * l) p fun a => m * w a := by
  refine .of_le (fun a ha => mul_le_mul' le_rfl (hl.le ha)) fun x hx => ?_
  obtain ⟨y, hy, z, hz, rfl⟩ := Language.mem_mul.mp hx
  obtain ⟨a, ha, hza⟩ := (hl z).mp hz
  exact ⟨a, ha, Language.append_mem_mul hy hza⟩

theorem IsUnion.braced (hl : IsUnion l p w) : IsUnion (braced l) p fun a => braced (w a) :=
  (hl.const_mul _).mul_const _

theorem IsUnion.optional (hl : IsUnion l p w) :
    IsUnion (optional l) (fun o : Option α => ∀ a ∈ o, p a) fun o => o.elim 1 w := by
  refine .of_le (fun o ho => ?_) fun x hx => ?_
  · cases o with
    | none => exact le_add_of_nonneg_right bot_le
    | some a => exact le_add_of_nonneg_of_le bot_le (hl.le (ho a rfl))
  · rcases (Language.mem_add _ _ _).mp hx with hx | hx
    · exact ⟨none, by simp, hx⟩
    · obtain ⟨a, ha, hxa⟩ := (hl x).mp hx
      exact ⟨some a, fun _ h => by cases h; exact ha, hxa⟩

theorem IsUnion.kstar (hl : IsUnion l p w) :
    IsUnion l∗ (fun as : List α => ∀ a ∈ as, p a) fun as => (as.map w).prod := by
  refine .of_le (fun as has => ?_) fun x hx => ?_
  · induction as with
    | nil => exact one_le_kstar
    | cons a as ih =>
      rw [List.map_cons, List.prod_cons]
      have hrest := ih fun b hb => has b (List.mem_cons_of_mem a hb)
      exact (mul_le_mul' (hl.le (has a List.mem_cons_self)) hrest).trans mul_kstar_le_kstar
  · obtain ⟨parts, rfl, hparts⟩ := Language.mem_kstar.mp hx
    clear hx
    induction parts with
    | nil => exact ⟨[], by simp, rfl⟩
    | cons y parts ih =>
      obtain ⟨a, ha, hya⟩ := (hl y).mp (hparts y List.mem_cons_self)
      obtain ⟨as, has, hrest⟩ := ih fun z hz => hparts z (List.mem_cons_of_mem y hz)
      refine ⟨a :: as, List.forall_mem_cons.mpr ⟨ha, has⟩, ?_⟩
      rw [List.map_cons, List.prod_cons, List.flatten_cons]
      exact Language.append_mem_mul hya hrest

/-- Other values that are written as the same. -/
theorem IsUnion.reindex (hl : IsUnion l p w) (hto : ∀ a, p a → ∃ b, q b ∧ w a ≤ v b)
    (hfrom : ∀ b, q b → v b ≤ l) : IsUnion l q v := by
  refine .of_le hfrom fun x hx => ?_
  obtain ⟨a, ha, hxa⟩ := (hl x).mp hx
  obtain ⟨b, hb, hle⟩ := hto a ha
  exact ⟨b, hb, hle hxa⟩

theorem IsUnion.separated (hl : IsUnion l p w) :
    IsUnion (l * (mark .comma * l)∗) (fun as : List α => as ≠ [] ∧ ∀ a ∈ as, p a)
      fun as => Tree.commaSeparated (as.map w) := by
  have hall := hl.mul (hl.const_mul (mark .comma)).kstar
  refine hall.reindex ?_ fun as h => ?_
  · rintro ⟨a, as⟩ h
    refine ⟨a :: as, ⟨List.cons_ne_nil a as, List.forall_mem_cons.mpr h⟩, ?_⟩
    rw [List.map_cons, Tree.commaSeparated, List.map_map]
    exact le_rfl
  · cases as with
    | nil => exact absurd rfl h.1
    | cons a as =>
      rw [List.map_cons, Tree.commaSeparated, List.map_map]
      exact hall.le (a := (a, as)) (List.forall_mem_cons.mp h.2)

theorem IsUnion.given (l : Language Lexeme) :
    IsUnion (Grammar.optional l) (fun _ : Bool => True) fun b => Tree.given b l := by
  refine .of_le (fun b _ => ?_) fun x hx => ?_
  · cases b with
    | false => exact le_add_of_nonneg_right bot_le
    | true => exact le_add_of_nonneg_left bot_le
  · rcases (Language.mem_add _ _ _).mp hx with hx | hx
    · exact ⟨false, trivial, hx⟩
    · exact ⟨true, trivial, hx⟩

end

open EndpointDsl.Tree

theorem isUnion_path : IsUnion path
    (fun t : PathTemplate => PathTemplate.Spells t.segments t.raw.toList) (quoted ·.raw) :=
  isUnion_iSup₂ _ _

theorem isUnion_attributeItem :
    IsUnion attributeItem (fun _ : AttributeItem => True) AttributeItem.written := by
  have hstring := isUnion_iSup quoted
  have hident := isUnion_iSup word
  have hsetting := (hident.mul_const (mark .equals)).mul hstring
  refine .of_le (fun a _ => ?_) fun x hx => ?_
  · obtain ⟨entry, place⟩ := a
    cases entry with
    | literal value =>
      exact (hstring.le trivial).trans
        ((le_add_of_nonneg_right bot_le).trans (le_add_of_nonneg_right bot_le))
    | flag key =>
      exact (hident.le trivial).trans
        ((le_add_of_nonneg_left bot_le).trans (le_add_of_nonneg_right bot_le))
    | setting key value =>
      exact (hsetting.le (a := (key, value)) ⟨trivial, trivial⟩).trans
        (le_add_of_nonneg_left bot_le)
  · rcases (Language.mem_add _ _ _).mp hx with hx | hx
    · rcases (Language.mem_add _ _ _).mp hx with hx | hx
      · obtain ⟨value, -, hx⟩ := (hstring x).mp hx
        exact ⟨⟨.literal value, default⟩, trivial, hx⟩
      · obtain ⟨key, -, hx⟩ := (hident x).mp hx
        exact ⟨⟨.flag key, default⟩, trivial, hx⟩
    · obtain ⟨⟨key, value⟩, -, hx⟩ := (hsetting x).mp hx
      exact ⟨⟨.setting key value, default⟩, trivial, hx⟩

theorem isUnion_bracketed : IsUnion bracketed Attribute.WellFormed Attribute.written := by
  have hitems := IsUnion.separated isUnion_attributeItem
  have hall := ((hitems.const_mul (mark .leftBracket)).mul_const
    (optional (mark .comma))).mul_const (mark .rightBracket)
  exact hall.reindex (fun items h => ⟨⟨items, default⟩, h.1, le_rfl⟩)
    fun a h => hall.le ⟨h, fun _ _ => trivial⟩

theorem writtenArgs_eq_map (args : List TypeExpr) :
    writtenArgs args = args.map TypeExpr.written := by
  induction args with
  | nil => rfl
  | cons t more ih => exact congrArg (t.written :: ·) ih

theorem angled_of_ne_nil {ls : List (Language Lexeme)} (h : ls ≠ []) :
    angled ls = mark .leftAngle * commaSeparated ls * mark .rightAngle := by
  cases ls with
  | nil => exact absurd rfl h
  | cons l more => rfl

/-- A type whose arguments are written trees is a written tree. -/
theorem isUnion_typeOver {l : Language Lexeme} {p : TypeExpr → Prop}
    (hl : IsUnion l p TypeExpr.written) :
    IsUnion (typeOver l) (fun t => ∀ a ∈ t.args, p a) TypeExpr.written := by
  have hargs := ((hl.separated.const_mul (mark .leftAngle)).mul_const (mark .rightAngle)).optional
  have hall := ((IsUnion.given (mark .question)).mul (isUnion_iSup word)).mul hargs
  refine hall.reindex ?_ fun t h => ?_
  · rintro ⟨⟨isOptional, name⟩, args⟩ h
    cases args with
    | none =>
      refine ⟨⟨name, isOptional, [], default⟩, by simp, ?_⟩
      rw [TypeExpr.written_mk, writtenArgs_eq_map, List.map_nil]
      exact le_rfl
    | some args =>
      obtain ⟨hne, hargs⟩ := h.2 args rfl
      refine ⟨⟨name, isOptional, args, default⟩, hargs, ?_⟩
      rw [TypeExpr.written_mk, writtenArgs_eq_map, angled_of_ne_nil (by simpa using hne)]
      exact le_rfl
  · obtain ⟨name, isOptional, args, place⟩ := t
    rw [TypeExpr.written_mk, writtenArgs_eq_map]
    by_cases hne : args = []
    · rw [hne]
      exact hall.le (a := ((isOptional, name), none)) ⟨⟨trivial, trivial⟩, by simp⟩
    · rw [angled_of_ne_nil (by simpa using hne)]
      refine hall.le (a := ((isOptional, name), some args)) ⟨⟨trivial, trivial⟩, ?_⟩
      rintro _ ⟨⟩
      exact ⟨hne, h⟩

mutual

theorem written_le_type : ∀ t : TypeExpr, t.written ≤ type
  | ⟨name, isOptional, args, place⟩ => by
    have hargs := written_le_type_of_mem args
    have hunion := isUnion_iSup₂ (fun t : TypeExpr => t.written ≤ type) TypeExpr.written
    rw [type_eq]
    exact ((isUnion_typeOver hunion).le hargs).trans (typeOver_mono (iSup₂_le fun _ h => h))

theorem written_le_type_of_mem : ∀ args : List TypeExpr, ∀ a ∈ args, a.written ≤ type
  | [] => by simp
  | t :: more => List.forall_mem_cons.mpr ⟨written_le_type t, written_le_type_of_mem more⟩

end

theorem isUnion_type : IsUnion type (fun _ => True) TypeExpr.written := by
  refine .of_le (fun t _ => written_le_type t) fun x hx => ?_
  have hle : type ≤ ⨆ t : TypeExpr, t.written := by
    refine OrderHom.lfp_le _ fun y hy => ?_
    obtain ⟨t, -, hyt⟩ := (isUnion_typeOver (isUnion_iSup TypeExpr.written) y).mp hy
    exact Language.mem_iSup.mpr ⟨t, hyt⟩
  obtain ⟨t, hxt⟩ := Language.mem_iSup.mp (hle hx)
  exact ⟨t, trivial, hxt⟩

theorem isUnion_field : IsUnion field Field.WellFormed Field.written := by
  have hattrs := IsUnion.kstar isUnion_bracketed
  have hall := ((hattrs.mul (isUnion_iSup word)).mul_const (mark .colon)).mul isUnion_type
  refine hall.reindex ?_ fun f h =>
    hall.le (a := ((f.attributes, f.name), f.type)) ⟨⟨h, trivial⟩, trivial⟩
  rintro ⟨⟨attrs, name⟩, type⟩ h
  exact ⟨⟨name, type, attrs, default⟩, h.1.1, le_rfl⟩

theorem isUnion_variant : IsUnion variant Variant.WellFormed Variant.written := by
  have hattrs := IsUnion.kstar isUnion_bracketed
  have htype := IsUnion.const_mul isUnion_type (mark .leftParen)
  have hall := (hattrs.mul (isUnion_iSup word)).mul (htype.mul_const (mark .rightParen)).optional
  refine hall.reindex ?_ fun v h => ?_
  · rintro ⟨⟨attrs, name⟩, payload⟩ h
    refine ⟨⟨name, payload, attrs, default⟩, h.1.1, ?_⟩
    cases payload <;> exact le_rfl
  · obtain ⟨name, payload, attrs, place⟩ := v
    have hle := hall.le (a := ((attrs, name), payload)) ⟨⟨h, trivial⟩, by simp⟩
    cases payload <;> exact hle

theorem IsUnion.members {α : Type} {l : Language Lexeme} {p : α → Prop} {w : α → Language Lexeme}
    (hl : IsUnion l p w) : IsUnion (l * Grammar.optional (mark .comma))∗ (fun as => ∀ a ∈ as, p a)
      (writtenMembers w) :=
  (hl.mul_const (Grammar.optional (mark .comma))).kstar

theorem isUnion_struct : IsUnion (roleStruct + namedStruct)
    (fun s => Item.MembersWellFormed (.struct s)) fun s => Item.body (.struct s) := by
  have hbody := IsUnion.braced (.members isUnion_field)
  have hroleName := isUnion_iSup fun r : Role => word r.name
  have hrole := (hroleName.mul_const (optional (mark .colon))).mul hbody
  have htag := ((hroleName.const_mul (mark .leftAngle)).mul_const (mark .rightAngle)).optional
  have hnamed := (((isUnion_iSup word).const_mul (word "struct")).mul htag).mul hbody
  refine .of_le (fun s h => ?_) fun x hx => ?_
  · rw [Item.body, add_mul]
    refine add_le_add (mul_le_mul' (iSup₂_le fun r hr => ?_) (hbody.le h)) ?_
    · exact mul_le_mul' (hroleName.le trivial) le_rfl
    · have hle := hnamed.le (a := ((s.name, s.role), s.fields)) ⟨⟨trivial, by simp⟩, h⟩
      obtain ⟨name, role, fields, attrs, place⟩ := s
      cases role <;> exact hle
  · rcases (Language.mem_add _ _ _).mp hx with hx | hx
    · obtain ⟨⟨r, fields⟩, h, hxs⟩ := (hrole x).mp hx
      let s : Struct := ⟨r.name, some r, fields, [], default⟩
      have hhead : word r.name * optional (mark .colon) ≤
          s.roleHead + word "struct" * word s.name * writtenRole s.role :=
        le_add_of_le_of_nonneg (le_iSup₂_of_le r ⟨rfl, rfl⟩ le_rfl) bot_le
      have hle := mul_le_mul' hhead (le_refl (braced (writtenMembers Field.written fields)))
      exact ⟨s, h.2, hle hxs⟩
    · obtain ⟨⟨⟨name, role⟩, fields⟩, h, hxs⟩ := (hnamed x).mp hx
      let s : Struct := ⟨name, role, fields, [], default⟩
      have hhead : word "struct" * word name * writtenRole role ≤
          s.roleHead + word "struct" * word s.name * writtenRole s.role :=
        le_add_of_nonneg_left bot_le
      have hle := mul_le_mul' hhead (le_refl (braced (writtenMembers Field.written fields)))
      cases role <;> exact ⟨s, h.2, hle hxs⟩

theorem isUnion_enum : IsUnion enum (fun e => Item.MembersWellFormed (.enum e))
    fun e => Item.body (.enum e) := by
  have hbody := IsUnion.braced (.members isUnion_variant)
  have hall := ((isUnion_iSup word).const_mul (word "enum")).mul hbody
  refine hall.reindex ?_ fun e h => hall.le (a := (e.name, e.variants)) ⟨trivial, h⟩
  rintro ⟨name, variants⟩ h
  exact ⟨⟨name, variants, [], default⟩, h.2, le_rfl⟩

theorem isUnion_item : IsUnion item Item.WellFormed Item.written := by
  have hbody : IsUnion (roleStruct + namedStruct + enum) Item.MembersWellFormed Item.body := by
    refine .of_le (fun i h => ?_) fun x hx => ?_
    · cases i with
      | struct s => exact (IsUnion.le isUnion_struct h).trans (le_add_of_nonneg_right bot_le)
      | enum e => exact (IsUnion.le isUnion_enum h).trans (le_add_of_nonneg_left bot_le)
    · rcases (Language.mem_add _ _ _).mp hx with hx | hx
      · obtain ⟨s, hs, hxs⟩ := (isUnion_struct x).mp hx
        exact ⟨.struct s, hs, hxs⟩
      · obtain ⟨e, he, hxe⟩ := (isUnion_enum x).mp hx
        exact ⟨.enum e, he, hxe⟩
  have hall := (IsUnion.kstar isUnion_bracketed).mul hbody
  refine hall.reindex ?_ fun i h => hall.le (a := (i.attributes, i)) h
  rintro ⟨attrs, i⟩ h
  refine ⟨i.withAttributes attrs, ?_, ?_⟩
  · cases i <;> exact h
  · cases i <;> exact le_rfl

theorem isUnion_method : IsUnion method Method.WellFormed Method.written := by
  have hall := (((isUnion_iSup fun v : Verb => word v.name).mul isUnion_path).mul_const
    (mark .arrow)).mul (IsUnion.kstar isUnion_item).braced
  refine hall.reindex ?_ fun m h =>
    hall.le (a := ((m.verb, m.path), m.items)) ⟨⟨trivial, h.1⟩, h.2⟩
  rintro ⟨⟨v, t⟩, items⟩ h
  exact ⟨⟨v, t, default, items, default⟩, ⟨h.1.2, h.2⟩, le_rfl⟩

theorem isUnion_endpoint : IsUnion endpoint Endpoint.WellFormed Endpoint.written := by
  have hmethods := IsUnion.kstar isUnion_method
  have hall := (((((IsUnion.given (word "pub")).const_mul (mark .leftBracket)).mul
    (isUnion_iSup word)).mul_const (mark .colon)).mul hmethods.braced).mul_const
      (mark .rightBracket)
  refine hall.reindex ?_ fun e h =>
    hall.le (a := ((e.isPublic, e.name), e.methods)) ⟨⟨trivial, trivial⟩, h⟩
  rintro ⟨⟨isPublic, name⟩, methods⟩ h
  exact ⟨⟨name, isPublic, methods, default⟩, h.2, le_rfl⟩

/-- The grammar is the union of what the well-formed trees are written as. -/
theorem isUnion_source : IsUnion source (fun es => ∀ e ∈ es, e.WellFormed) writtenEndpoints := by
  have hmore := IsUnion.const_mul isUnion_endpoint (optional (mark .comma))
  have hall := (IsUnion.mul isUnion_endpoint hmore.kstar).mul_const (optional (mark .comma))
  refine .of_le (fun es h => ?_) fun x hx => ?_
  · cases es with
    | nil => exact le_add_of_nonneg_right bot_le
    | cons e more =>
      exact (hall.le (a := (e, more)) (List.forall_mem_cons.mp h)).trans
        (le_add_of_nonneg_left bot_le)
  · rcases (Language.mem_add _ _ _).mp hx with hx | hx
    · exact ⟨[], by simp, hx⟩
    · obtain ⟨⟨e, more⟩, h, hxe⟩ := (hall x).mp hx
      exact ⟨e :: more, List.forall_mem_cons.mpr h, hxe⟩

end Grammar
end EndpointDsl
