import EndpointDsl.Proofs.Text.LetterCase
import EndpointDsl.Proofs.Wire.Flags

/-!
When headers give back the instance that they were made from.

Headers are sent under the wire names as they are, and received under names in any letter case,
which are compared by their lower case.  The wire names of a class are known to differ, but nothing
keeps their lower cases apart.  A header that is not sent leaves its field to the entry under the
attribute name, which may be a header of another field.  So both have to be kept apart, and that is
enough.
-/

namespace EndpointDsl
namespace Wire

open Client (ClassDef FieldDef FieldType Module)
open Schema (Endpoint Method Struct)

/-- Headers as they arrive: what was sent, each under a name with the same lower case. -/
def Arrives (sent : List (String × String)) (received : List (String × Value)) : Prop :=
  List.Forall₂ (fun h g => Text.toLower g.1 = Text.toLower h.1 ∧ g.2 = .text h.2) sent received

/-- The headers of every instance of a class give back the instance, however they arrive. -/
def HeadersComeBack (m : Module) (c : ClassDef) : Prop :=
  ∀ v, Obtained m v → classOf? m v = some c →
    ∃ sent, encodeHeaders m v = .ok sent ∧
      ∀ received, Arrives sent received → decodeHeadersAs m c.name received = .ok v

/-- No two fields share the lower case of their wire names, and no field that may be absent has the
wire name of another as its attribute name. -/
structure HeadersApart (c : ClassDef) : Prop where
  folded : ∀ f ∈ c.fields, ∀ g ∈ c.fields, Text.toLower f.wire = Text.toLower g.wire → f = g
  absent : ∀ f ∈ c.fields, ∀ g ∈ c.fields, f.fallback = .absent → f.attr = g.wire → f = g

/-- A class that is both sent and received and whose fields hold texts. -/
structure TextClass (c : ClassDef) : Prop where
  lawful : c.Lawful
  base : c.base = .both
  text : ∀ f ∈ c.fields, (f.fieldType = .scalar .text ∧ f.fallback ≠ .absent) ∨
    (f.fieldType = .optional (.scalar .text) ∧ f.fallback = .absent)

/-- What a field of such a class holds. -/
inductive HoldsText (f : FieldDef) : Value → Prop
  | text (t : String) : HoldsText f (.text t)
  | null (h : f.fallback = .absent) : HoldsText f .null

/-- The text that a value is sent as; null is not sent. -/
def sentText? : Value → Option String
  | .text t => some t
  | _ => none

/-- The headers of an instance with the values. -/
def sentHeaders (c : ClassDef) (value : FieldDef → Value) : List (String × String) :=
  c.fields.filterMap fun f => (sentText? (value f)).map (f.wire, ·)

/-- The headers as they are sent, as values. -/
def asSent (sent : List (String × String)) : List (String × Value) :=
  sent.map fun h => (h.1, .text h.2)

theorem arrives_asSent (sent : List (String × String)) : Arrives sent (asSent sent) := by
  rw [Arrives, asSent, List.forall₂_map_right_iff, List.forall₂_same]
  exact fun _ _ => ⟨rfl, rfl⟩

/-- Another case of the letters of the names is no matter. -/
theorem arrives_of_sameButCase {sent : List (String × String)} {received : List (String × Value)}
    (h : List.Forall₂ (fun h g => Text.SameButCase g.1 h.1 ∧ g.2 = .text h.2) sent received) :
    Arrives sent received :=
  h.imp fun _ _ hg => ⟨Text.toLower_eq_of_sameButCase hg.1, hg.2⟩

section

variable {m : Module} {s : Setting} {n : Nesting} {c : ClassDef} {f : FieldDef}
  {value : FieldDef → Value}

/-! ## Fields that hold texts -/

theorem HoldsText.text_or_null {v : Value} (h : HoldsText f v) :
    (∃ t, v = .text t) ∨ (v = .null ∧ f.fallback = .absent) := by
  cases h with
  | text t => exact Or.inl ⟨t, rfl⟩
  | null h => exact Or.inr ⟨rfl, h⟩

theorem TextClass.plain (h : TextClass c) : c.base ≠ .enum := by
  rw [h.base]
  decide

theorem TextClass.checkValue (h : TextClass c) (hf : f ∈ c.fields) {v : Value}
    (hv : HoldsText f v) : Wire.checkValue s n f.fieldType v = .ok v := by
  have htext : ∀ t, Wire.checkValue s n (.scalar .text) (.text t) = .ok (.text t) :=
    fun t => checkValue_scalar_eq_ok_iff.mpr rfl
  rcases h.text f hf with ⟨htype, hpresent⟩ | ⟨htype, -⟩
  · rw [htype]
    cases hv with
    | text t => exact htext t
    | null habsent => exact absurd habsent hpresent
  · rw [htype]
    cases hv with
    | text t => rw [checkValue_optional (v := .text t) nofun, htext]
    | null => exact checkValue_null

theorem TextClass.checkField (h : TextClass c) (hf : f ∈ c.fields) {v : Value}
    (hv : HoldsText f v) {key : String} {entries : List (String × Value)}
    (hentry : entryFor? f entries = some (key, v)) :
    Wire.checkField s n f entries = .ok ⟨f.attr, some v, fallbackValue f⟩ := by
  rw [checkField_of_entry hentry, h.checkValue hf hv]
  rfl

theorem TextClass.holdsText_fallbackValue (h : TextClass c) (hf : f ∈ c.fields)
    (hrequired : f.fallback ≠ .required) : HoldsText f (fallbackValue f) := by
  cases hfallback : f.fallback with
  | required => exact absurd hfallback hrequired
  | builder className attr =>
    exact absurd hfallback ((h.lawful.fields f hf).declared className attr)
  | absent =>
    rw [fallbackValue_absent hfallback]
    exact .null hfallback
  | zero z =>
    have hfits := (h.lawful.fields f hf).zero z hfallback
    rcases h.text f hf with ⟨htype, -⟩ | ⟨-, habsent⟩
    · rw [htype] at hfits
      cases z <;> cases hfits
      rw [fallbackValue, hfallback]
      exact .text ""
    · rw [hfallback] at habsent
      cases habsent

theorem TextClass.holdsText_of_fits (h : TextClass c) (hf : f ∈ c.fields) {v : Value}
    (hv : Fits m f.fieldType v) : HoldsText f v := by
  have htext : ∀ {v : Value}, Fits m (.scalar .text) v → HoldsText f v := by
    rintro v (⟨⟨t⟩⟩)
    exact .text t
  rcases h.text f hf with ⟨htype, -⟩ | ⟨htype, habsent⟩
  · exact htext (htype ▸ hv)
  · rw [htype] at hv
    cases hv with
    | absent => exact .null habsent
    | present hne hv => exact htext hv

/-- An instance of such a class has a text, or null, in every field. -/
theorem TextClass.exists_value (h : TextClass c) (hc : m.class? c.name = some c)
    (hattrs : AttrsDiffer m) {v : Value} (hv : Obtained m v) (hclass : classOf? m v = some c) :
    ∃ value : FieldDef → Value, v = .model c.name (c.fields.map fun f => (f.attr, value f)) ∧
      ∀ f ∈ c.fields, HoldsText f (value f) := by
  obtain ⟨-, hfits⟩ := fits_of_classOf? (sound_of_obtained hattrs hv) hclass
  cases hfits with
  | @struct _ _ value hc' hbase hvalues =>
    cases hc.symm.trans hc'
    refine ⟨value, rfl, fun f hf => ?_⟩
    by_cases hback : FallsBack f (value f)
    · rw [hback.1]
      exact h.holdsText_fallbackValue hf hback.2
    · exact h.holdsText_of_fits hf (hvalues f hf hback)
  | choice hc' hbase hf hneeded hpayload =>
    cases hc.symm.trans hc'
    rw [h.base] at hbase
    cases hbase

/-! ## What is sent -/

theorem TextClass.encodeIn (h : TextClass c) (hf : f ∈ c.fields) {v : Value} (hv : HoldsText f v)
    (w : Writing) (n : Nesting) :
    Wire.encodeIn w n (Shape.ofType w.module f.fieldType) v =
      .ok (((sentText? v).map Json.string).getD .null) := by
  have hshape : Shape.ofType w.module f.fieldType = .free := by
    rcases h.text f hf with ⟨htype, -⟩ | ⟨htype, -⟩
    · rw [htype]; rfl
    · rw [htype]; rfl
  rw [hshape]
  cases hv with
  | text t => rw [Wire.encodeIn]; rfl
  | null => rw [Wire.encodeIn]; rfl

/-- Entries that are texts or null have the texts for headers. -/
theorem headersOf?_texts {α : Type} (name : α → String) (text? : α → Option String) (l : List α) :
    headersOf? (l.map fun a => (name a, ((text? a).map Json.string).getD .null)) =
      some (l.filterMap fun a => (text? a).map (name a, ·)) := by
  rw [headersOf?]
  induction l with
  | nil => rfl
  | cons a rest ih =>
    rw [List.map_cons]
    cases htext : text? a with
    | none =>
      rw [List.filter_cons_of_neg (by simp [isNull]), ih,
        List.filterMap_cons_none (by rw [htext]; rfl)]
    | some t =>
      rw [List.filter_cons_of_pos (by simp [isNull]), List.mapM_cons, ih,
        List.filterMap_cons_some (by rw [htext]; rfl)]
      rfl

/-- The headers of an instance are the texts that its fields hold. -/
theorem TextClass.encodeHeaders (h : TextClass c) (hc : m.class? c.name = some c)
    (hvalue : ∀ f ∈ c.fields, HoldsText f (value f)) :
    Wire.encodeHeaders m (.model c.name (c.fields.map fun f => (f.attr, value f))) =
      .ok (sentHeaders c value) := by
  have hencoded := encodeInstance_model hc (by rw [h.base]; rfl)
    (encodeAttrs_of_encodeIn h.lawful.attrs (fun f hf => hf)
      fun f hf => h.encodeIn hf (hvalue f hf) (.ofModule m) (.start (Reader.ofModule m) c.name))
  rw [filter_omittedKeys h.lawful] at hencoded
  rw [encodeHeaders_of_encodes hencoded,
    headersOf?_texts (·.wire) (fun f => sentText? (value f)), List.filterMap_filter]
  refine congrArg Except.ok (List.filterMap_congr fun f hf => ?_)
  obtain ⟨t, ht⟩ | ⟨hnull, -⟩ := (hvalue f hf).text_or_null
  · have hkept : isOmitted c value f = false := by rw [isOmitted, ht]
    simp [hkept]
  · simp [hnull, sentText?]

/-! ## What is received -/

section

variable {sent : List (String × String)} {received : List (String × Value)}

theorem lowerNames_of_arrives (h : Arrives sent received) :
    lowerNames received = lowerNames (asSent sent) := by
  have hnames : sent.map (fun h => (Text.toLower h.1, Value.text h.2)) =
      received.map fun h => (Text.toLower h.1, h.2) :=
    map_eq_of_forall₂ h fun h g hg => by rw [hg.1, hg.2]
  rw [lowerNames, lowerNames, ← hnames, asSent, List.map_map]
  rfl

/-- However headers arrive, the same is read from them. -/
theorem decodeHeadersAs_of_arrives (h : Arrives sent received) (m : Module) (name : String) :
    decodeHeadersAs m name received = decodeHeadersAs m name (asSent sent) := by
  simp only [decodeHeadersAs, decodeHeaders, ownHeaders, lowerNames_of_arrives h]

end

/-- The text that is found for a field is the one that was sent for it. -/
theorem lookup?_lowerNames (hfolded : (c.fields.map fun f => Text.toLower f.wire).Nodup)
    {received : List (String × Value)} (h : Arrives (sentHeaders c value) received)
    (hf : f ∈ c.fields) :
    lookup? (Text.toLower f.wire) (lowerNames received) = (sentText? (value f)).map .text := by
  have hsent : (asSent (sentHeaders c value)).map (fun h => (Text.toLower h.1, h.2)) =
      c.fields.filterMap fun f =>
        ((sentText? (value f)).map Value.text).map (Text.toLower f.wire, ·) := by
    rw [asSent, sentHeaders, List.map_map, List.map_filterMap]
    refine List.filterMap_congr fun f _ => ?_
    cases sentText? (value f) <;> rfl
  rw [lowerNames_of_arrives h, lowerNames, lookup?_lastWins, hsent, ← List.filterMap_reverse]
  refine lookup?_filterMap (fun f : FieldDef => Text.toLower f.wire)
    (fun f => (sentText? (value f)).map Value.text) ?_ (List.mem_reverse.mpr hf)
  rw [List.map_reverse, List.nodup_reverse]
  exact hfolded

/-- A field finds its own header, by the lower case of its wire name. -/
theorem lookup?_ownHeaders (hwires : (c.fields.map (·.wire)).Nodup)
    {received : List (String × Value)} (hf : f ∈ c.fields) :
    lookup? f.wire (ownHeaders c received) =
      lookup? (Text.toLower f.wire) (lowerNames received) :=
  lookup?_filterMap (·.wire) (fun f => lookup? (Text.toLower f.wire) (lowerNames received))
    hwires hf

theorem decodeHeadersAs_eq_checked (hc : m.class? c.name = some c) (hcan : c.base.canDecode = true)
    (received : List (String × Value)) :
    decodeHeadersAs m c.name received =
      checked (checkAs (.program m) c (.object (ownHeaders c received))) := by
  rw [decodeHeadersAs, decodable_eq_ok hc hcan]
  rfl

theorem TextClass.decodeHeadersAs_iff (h : TextClass c) (hc : m.class? c.name = some c)
    {received : List (String × Value)} {v : Value} :
    decodeHeadersAs m c.name received = .ok v ↔
      checkAs (.program m) c (.object (ownHeaders c received)) = .ok v := by
  rw [decodeHeadersAs_eq_checked hc (by rw [h.base]; rfl), checked_eq_ok_iff]

/-- Every field takes the text that is found under the lower case of its wire name. -/
theorem TextClass.decodeHeadersAs_of_lookup (h : TextClass c) (hc : m.class? c.name = some c)
    {received : List (String × Value)} {text : FieldDef → String}
    (hfound : ∀ f ∈ c.fields,
      lookup? (Text.toLower f.wire) (lowerNames received) = some (.text (text f))) :
    decodeHeadersAs m c.name received =
      .ok (.model c.name (c.fields.map fun f => (f.attr, .text (text f)))) := by
  refine (h.decodeHeadersAs_iff hc).mpr (checkClass_of_checkField h.plain fun f hf => ?_)
  have hentry : entryFor? f (ownHeaders c received) = some (f.wire, .text (text f)) := by
    rw [entryFor?, lookup?_ownHeaders h.lawful.wires hf, hfound f hf]
  exact ⟨_, h.checkField hf (.text (text f)) hentry, rfl⟩

/-- Kept apart, the headers of an instance give it back. -/
theorem TextClass.headersComeBack (h : TextClass c) (hc : m.class? c.name = some c)
    (hattrs : AttrsDiffer m) (hapart : HeadersApart c) : HeadersComeBack m c := by
  intro v hv hclass
  obtain ⟨value, rfl, hvalue⟩ := h.exists_value hc hattrs hv hclass
  refine ⟨_, h.encodeHeaders hc hvalue, fun received hreceived => ?_⟩
  have hfolded : (c.fields.map fun f => Text.toLower f.wire).Nodup :=
    (List.nodup_map_iff_inj_on (List.Nodup.of_map _ h.lawful.attrs)).mpr hapart.folded
  have hown : ∀ f ∈ c.fields,
      lookup? f.wire (ownHeaders c received) = (sentText? (value f)).map .text := fun f hf => by
    rw [lookup?_ownHeaders h.lawful.wires hf, lookup?_lowerNames hfolded hreceived hf]
  refine (h.decodeHeadersAs_iff hc).mpr (checkClass_of_checkField h.plain fun f hf => ?_)
  have hlookup := hown f hf
  obtain ⟨t, ht⟩ | ⟨hnull, habsent⟩ := (hvalue f hf).text_or_null
  · have hentry : entryFor? f (ownHeaders c received) = some (f.wire, .text t) := by
      rw [entryFor?, hlookup, ht]
      rfl
    rw [ht]
    exact ⟨_, h.checkField hf (.text t) hentry, rfl⟩
  · rw [hnull] at hlookup ⊢
    -- No other header stands under the attribute name.
    have hattr : lookup? f.attr (ownHeaders c received) = none := by
      rw [lookup?_eq_none_iff]
      intro hmem
      obtain ⟨e, he, hname⟩ := List.mem_map.mp hmem
      obtain ⟨g, hg, hsome⟩ := List.mem_filterMap.mp he
      obtain ⟨w, -, rfl⟩ := Option.map_eq_some_iff.mp hsome
      obtain rfl := hapart.absent f hf g hg habsent hname.symm
      exact lookup?_eq_none_iff.mp hlookup (List.mem_map_of_mem he)
    refine ⟨_, (checkField_of_none (entryFor?_eq_none_iff.mpr ⟨hlookup, hattr⟩)).trans
      (if_neg (by rw [habsent]; decide)), ?_⟩
    exact fallbackValue_absent habsent

/-! ## Headers that do not come back -/

/-- The fields can be given any texts. -/
theorem TextClass.construct (h : TextClass c) (hc : m.class? c.name = some c)
    (hvalue : ∀ f ∈ c.fields, HoldsText f (value f)) :
    Wire.construct m c.name (c.fields.map fun f => (f.wire, value f)) =
      .ok (.model c.name (c.fields.map fun f => (f.attr, value f))) := by
  rw [Wire.construct, hc]
  refine checked_eq_ok_iff.mpr (checkClass_of_checkField h.plain fun f hf => ?_)
  have hlookup : lookup? f.wire (c.fields.map fun f => (f.wire, value f)) = some (value f) := by
    refine lookup?_of_mem ?_ (List.mem_map.mpr ⟨f, hf, rfl⟩)
    rw [List.map_map]
    exact h.lawful.wires
  have hentry : entryFor? f (c.fields.map fun f => (f.wire, value f)) =
      some (f.wire, value f) := by
    rw [entryFor?, hlookup]
  exact ⟨_, h.checkField hf (hvalue f hf) hentry, rfl⟩

theorem TextClass.obtained (h : TextClass c) (hc : m.class? c.name = some c)
    (hvalue : ∀ f ∈ c.fields, HoldsText f (value f)) :
    Obtained m (.model c.name (c.fields.map fun f => (f.attr, value f))) := by
  refine .constructed (fun e he => ?_) (h.construct hc hvalue)
  obtain ⟨f, hf, rfl⟩ := List.mem_map.mp he
  obtain ⟨t, ht⟩ | ⟨hnull, -⟩ := (hvalue f hf).text_or_null
  · rw [ht]
    exact .scalar trivial trivial
  · rw [hnull]
    exact .scalar trivial trivial

/-- A field whose entry is a text holds that text. -/
theorem TextClass.eq_of_decodeHeadersAs (h : TextClass c) (hc : m.class? c.name = some c)
    {received : List (String × Value)}
    (hback : decodeHeadersAs m c.name received =
      .ok (.model c.name (c.fields.map fun f => (f.attr, value f))))
    (hf : f ∈ c.fields) {key t : String}
    (hentry : entryFor? f (ownHeaders c received) = some (key, .text t)) : value f = .text t := by
  have hread := (h.decodeHeadersAs_iff hc).mp hback
  rw [checkAs, checkClass_object] at hread
  obtain ⟨given, hgiven, hmade⟩ := bind_eq_ok_iff.mp hread
  rw [assemble, if_neg h.plain, instanceOf] at hmade
  obtain ⟨-, hattrs⟩ := Value.model.inj (Except.ok.inj hmade)
  obtain ⟨g, hg, hcheck⟩ := exists_of_mem_forall₂_left (checkFields_eq_ok_iff.mp hgiven) hf
  rw [h.checkField hf (.text t) hentry] at hcheck
  have hmem : (f.attr, Value.text t) ∈ c.fields.map fun f => (f.attr, value f) := by
    rw [← hattrs]
    exact List.mem_map.mpr ⟨g, hg, by rw [← Except.ok.inj hcheck]; rfl⟩
  obtain ⟨f', hf', heq⟩ := List.mem_map.mp hmem
  obtain ⟨hattr, hvalue⟩ := Prod.mk.inj heq
  rwa [List.inj_on_of_nodup_map h.lawful.attrs hf' hf hattr] at hvalue

/-- What was sent under a name is found under its lower case, or what was sent after it. -/
theorem exists_lookup?_lowerNames {sent : List (String × String)} {name text : String}
    (h : (name, text) ∈ sent) :
    ∃ t, lookup? (Text.toLower name) (lowerNames (asSent sent)) = some (.text t) := by
  rw [lowerNames, lookup?_lastWins, asSent, List.map_map]
  generalize hheaders : (sent.map ((fun h : String × Value => (Text.toLower h.1, h.2)) ∘
    fun h => (h.1, Value.text h.2))).reverse = headers
  have hmem : ∀ {e}, e ∈ headers ↔ ∃ h ∈ sent, (Text.toLower h.1, Value.text h.2) = e := by
    intro e
    rw [← hheaders, List.mem_reverse, List.mem_map]
    rfl
  cases hfound : lookup? (Text.toLower name) headers with
  | none =>
    refine absurd ?_ (lookup?_eq_none_iff.mp hfound)
    exact List.mem_map.mpr ⟨_, hmem.mpr ⟨_, h, rfl⟩, rfl⟩
  | some v =>
    obtain ⟨h', -, heq⟩ := hmem.mp (mem_of_lookup? hfound)
    exact ⟨h'.2, by rw [(Prod.mk.inj heq).2]⟩

/-- Of two headers with one lower case only one arrives, and both fields take it. -/
theorem TextClass.folded_of_headersComeBack (h : TextClass c) (hc : m.class? c.name = some c)
    (hback : HeadersComeBack m c) : ∀ f ∈ c.fields, ∀ g ∈ c.fields,
      Text.toLower f.wire = Text.toLower g.wire → f = g := by
  intro f hf g hg hlower
  by_contra hne
  let value : FieldDef → Value := fun k => .text (if k = f then "x" else "y")
  have hvalue : ∀ k ∈ c.fields, HoldsText k (value k) := fun _ _ => .text _
  obtain ⟨sent, hsent, hreturn⟩ := hback _ (h.obtained hc hvalue) hc
  have hread := hreturn _ (arrives_asSent sent)
  obtain ⟨t, ht⟩ : ∃ t, lookup? (Text.toLower f.wire) (lowerNames (asSent sent)) =
      some (.text t) := by
    obtain rfl := Except.ok.inj ((h.encodeHeaders hc hvalue).symm.trans hsent)
    exact exists_lookup?_lowerNames (List.mem_filterMap.mpr ⟨f, hf, rfl⟩)
  have htaken : ∀ k ∈ c.fields, Text.toLower k.wire = Text.toLower f.wire → value k = .text t := by
    intro k hk hsame
    have hentry : entryFor? k (ownHeaders c (asSent sent)) = some (k.wire, .text t) := by
      rw [entryFor?, lookup?_ownHeaders h.lawful.wires hk, hsame, ht]
    exact h.eq_of_decodeHeadersAs hc hread hk hentry
  have hxy : value f = value g := (htaken f hf rfl).trans (htaken g hg hlower.symm).symm
  simp only [value, if_true, if_neg (Ne.symm hne), Value.text.injEq] at hxy
  exact absurd hxy (by decide)

/-- A header under the attribute name of a field that is absent is taken for the field. -/
theorem TextClass.headersApart (h : TextClass c) (hc : m.class? c.name = some c)
    (hback : HeadersComeBack m c) : HeadersApart c where
  folded := h.folded_of_headersComeBack hc hback
  absent := by
    intro f hf g hg habsent hname
    by_contra hne
    have hfolded : (c.fields.map fun f => Text.toLower f.wire).Nodup :=
      (List.nodup_map_iff_inj_on (List.Nodup.of_map _ h.lawful.attrs)).mpr
        (h.folded_of_headersComeBack hc hback)
    let value : FieldDef → Value := fun k => if k = f then .null else .text "x"
    have hvalue : ∀ k ∈ c.fields, HoldsText k (value k) := by
      intro k _
      by_cases hkf : k = f
      · subst hkf
        simpa only [value, if_true] using HoldsText.null habsent
      · simpa only [value, if_neg hkf] using HoldsText.text "x"
    obtain ⟨sent, hsent, hreturn⟩ := hback _ (h.obtained hc hvalue) hc
    obtain rfl := Except.ok.inj ((h.encodeHeaders hc hvalue).symm.trans hsent)
    have hread := hreturn _ (arrives_asSent _)
    have hlookup := fun k hk => (lookup?_ownHeaders h.lawful.wires hk).trans
      (lookup?_lowerNames (f := k) hfolded (arrives_asSent (sentHeaders c value)) hk)
    have hf' := hlookup f hf
    have hg' := hlookup g hg
    simp only [value, if_true, if_neg (Ne.symm hne)] at hf' hg'
    have hentry : entryFor? f (ownHeaders c (asSent (sentHeaders c value))) =
        some (f.attr, .text "x") := by
      rw [entryFor?, hf', hname, hg']
      rfl
    have htaken := h.eq_of_decodeHeadersAs hc hread hf hentry
    simp only [value, if_true] at htaken
    cases htaken

end

/-! ## Compiled headers -/

/-- The type of a field that holds a text, or that holds a text unless it is absent. -/
def IsText (type : Schema.TypeDesc) : Prop :=
  type = .primitive "String" ∨ type = .optional (.primitive "String")

/-- What the class of headers is, if all of them hold texts. -/
theorem textClass_of_structClass {className : String → Client.Gen String} {m : Method}
    {s₀ : Struct} {c : ClassDef} (hwf : s₀.WellFormed)
    (hcapability : s₀.capability = Schema.roleCapability .header)
    (htext : ∀ f ∈ (Schema.resolveStruct s₀).fields, IsText f.type)
    (h : Client.structClass className m (Schema.resolveStruct s₀) = .ok c) : TextClass c := by
  have hlawful := Client.lawful_structClass hwf h
  obtain ⟨base, fields, hbase, hfields, rfl⟩ := Client.structClass_eq_ok_iff.mp h
  refine ⟨hlawful, ?_, fun d hd => ?_⟩
  · have hboth : (Schema.resolveStruct s₀).capability = .both := hcapability
    rw [Client.structBase, hboth] at hbase
    exact (Except.ok.inj hbase).symm
  · obtain ⟨f, hf, hdef⟩ := exists_of_mem_mapM hfields hd
    obtain ⟨wire, type, fallback, -, htype, hfallback, rfl⟩ := Client.fieldDef_eq_ok_iff.mp hdef
    have habsent := (Client.fieldFallback_eq_ok hfallback).1
    rcases htext f hf with hstring | hstring
    · rw [hstring] at htype
      refine Or.inl ⟨(Except.ok.inj htype).symm, fun h => ?_⟩
      have hoptional := habsent.mp h
      rw [Schema.Field.isOptional, hstring] at hoptional
      cases hoptional
    · rw [hstring] at htype
      refine Or.inr ⟨(Except.ok.inj htype).symm, habsent.mpr ?_⟩
      rw [Schema.Field.isOptional, hstring]
      rfl

/-- Headers of a source that compiles, all of which hold texts, have their class.  Once the module is
loaded, what is read from headers does not depend on the case of the letters of their names; and
unless a field has the name of a builder method, the headers of every instance are read as that
instance exactly if they are kept apart. -/
theorem headers_come_back_iff {text unit : String} {compiled : Compilation} {e : Endpoint}
    {m : Method} {s : Struct} (hcompiled : compile text unit = .ok compiled)
    (hok : compiled.diagnostics = []) (he : e ∈ compiled.schema.endpoints) (hm : m ∈ e.methods)
    (hs : .struct s ∈ m.items) (hrole : s.role = some .header)
    (htext : ∀ f ∈ s.fields, IsText f.type) :
    ∃ module ∈ compiled.modules, module.endpoint = e.name ∧
      ∃ c, module.class? (m.className s.name) = some c ∧ ∀ loaded, load module = .ok loaded →
        (∀ {sent received}, Arrives sent received →
          decodeHeadersAs loaded c.name received = decodeHeadersAs loaded c.name (asSent sent)) ∧
        (BuilderApart c → (HeadersComeBack loaded c ↔ HeadersApart c)) := by
  obtain ⟨module, hmodule, hname, c, hfound, e₀, s₀, hs₀, hwf, rfl, className, hclass⟩ :=
    exists_structClass hcompiled hok he hm hs
  have hcapability := (Schema.capability_of_mem hs₀).1 .header hrole
  have htexts := textClass_of_structClass hwf hcapability htext hclass
  refine ⟨module, hmodule, hname, c, hfound, fun loaded hload =>
    ⟨fun h => decodeHeadersAs_of_arrives h _ _, fun hapart => ?_⟩⟩
  obtain rfl := settled_of_load hload
  have hsettled := class?_settled_of_builderApart hfound hapart
  exact ⟨htexts.headersApart hsettled,
    htexts.headersComeBack hsettled (attrsDiffer_of_compile hcompiled hmodule)⟩

/-! ## Headers whose names differ in the case of a letter, or in a letter -/

def headerField (name wire : String) (offset : Nat) : Schema.Field :=
  { name, type := .primitive "String",
    attributes := [⟨.rename wire, .field, Schema.onFirstLine offset⟩],
    location := Schema.onFirstLine (offset + 7) }

def headersStruct (second : String) : Struct :=
  { name := "Header", role := some .header,
    fields := [headerField "a" "X-A" 27, headerField "b" second 44],
    attributes := [], location := Schema.onFirstLine 19, capability := .both }

def foldedText : String :=
  "[pub A:\x7bPUT \"/t\"=>\x7bHeader\x7b[\"X-A\"] a:String,[\"x-a\"] b:String\x7d\x7d\x7d]"

def apartText : String :=
  "[pub A:\x7bPUT \"/t\"=>\x7bHeader\x7b[\"X-A\"] a:String,[\"x-b\"] b:String\x7d\x7d\x7d]"

theorem folded_built : (Tree.parse foldedText "").errors = [] ∧
    (Schema.build (Tree.parse foldedText "").source).errors = [] ∧
    (Schema.build (Tree.parse foldedText "").source).schema.endpoints =
      [Schema.soleEndpoint (.struct { headersStruct "x-a" with capability := {} })] := by
  cbv

theorem apart_built : (Tree.parse apartText "").errors = [] ∧
    (Schema.build (Tree.parse apartText "").source).errors = [] ∧
    (Schema.build (Tree.parse apartText "").source).schema.endpoints =
      [Schema.soleEndpoint (.struct { headersStruct "x-b" with capability := {} })] := by
  cbv

theorem folded_literals : Lexer.LiteralsNullFree foldedText "" := by
  have hlexemes : (Lexer.tokenize foldedText "").map (fun list =>
      (list.tokens.map (·.lexeme)).filterMap Lexeme.literal?) = .ok ["/t", "X-A", "x-a"] := by
    cbv
  exact Lexer.literalsNullFree_of_tokenize hlexemes (by decide)

theorem apart_literals : Lexer.LiteralsNullFree apartText "" := by
  have hlexemes : (Lexer.tokenize apartText "").map (fun list =>
      (list.tokens.map (·.lexeme)).filterMap Lexeme.literal?) = .ok ["/t", "X-A", "x-b"] := by
    cbv
  exact Lexer.literalsNullFree_of_tokenize hlexemes (by decide)

theorem wireName_headerField {name wire : String} {offset : Nat} (hwire : wire ≠ "") :
    Schema.wireName none (headerField name wire offset).attributes name = wire := by
  have hexplicit : Schema.explicitName? (headerField name wire offset).attributes = some wire :=
    if_neg fun h => hwire (String.isEmpty_iff.mp h)
  rw [Schema.wireName, hexplicit]

theorem wireNames_headersStruct {second : String} (hsome : second ≠ "") :
    (headersStruct second).wireNames = ["X-A", second] := by
  show ["X-A", Schema.wireName none (headerField "b" second 44).attributes "b"] = _
  rw [wireName_headerField hsome]

theorem headersStruct_wellFormed {second : String} (hsome : second ≠ "") (hother : "X-A" ≠ second) :
    (headersStruct second).WellFormed where
  attributes := ⟨nofun, Nat.zero_le 1, nofun⟩
  fieldNames := show ["a", "b"].Nodup by decide
  members := by
    have hmember : ∀ {name wire : String} {offset : Nat}, wire ≠ "" →
        Schema.MemberAttributes (headerField name wire offset).attributes := by
      intro name wire offset hwire
      refine ⟨?_, le_rfl, ?_⟩
      · exact List.forall_mem_singleton.mpr ⟨nofun, rfl⟩
      · exact List.forall_mem_singleton.mpr fun h => hwire (Schema.AttributeKind.rename.inj h)
    intro f hf
    simp only [headersStruct, List.mem_cons, List.not_mem_nil, or_false] at hf
    rcases hf with rfl | rfl
    · exact hmember (by decide)
    · exact hmember hsome
  defaults := by
    intro f hf
    simp only [headersStruct, List.mem_cons, List.not_mem_nil, or_false] at hf
    rcases hf with rfl | rfl
    · exact ⟨Nat.zero_le 1, fun _ => ⟨rfl, by decide, by decide⟩⟩
    · exact ⟨Nat.zero_le 1, fun _ => ⟨rfl, by decide, by decide⟩⟩
  errorOnce := Nat.zero_le 1
  errorDecoded := fun _ _ _ => rfl
  wires := by
    rw [wireNames_headersStruct hsome]
    simpa using hother
  attrs := nodup_attributeNames_a_b

def headerA : FieldDef := ⟨"a", .scalar .text, "X-A", .required⟩

def headerB (second : String) : FieldDef := ⟨"b", .scalar .text, second, .required⟩

/-- The class of the headers. -/
structure HeadersClass (second : String) (c : ClassDef) : Prop where
  builder : c.builder = false
  fields : c.fields = [headerA, headerB second]

namespace HeadersClass

variable {second : String} {m : Module} {c : ClassDef}

theorem of_structClass {className : String → Client.Gen String} {method : Method}
    (hsome : second ≠ "")
    (h : Client.structClass className method (Schema.resolveStruct (headersStruct second)) =
      .ok c) : HeadersClass second c := by
  obtain ⟨base, fields, -, hfields, rfl⟩ := Client.structClass_eq_ok_iff.mp h
  have hdefs : (Schema.resolveStruct (headersStruct second)).fields.mapM
      (Client.fieldDef className (Schema.resolveStruct (headersStruct second)).name) =
        .ok [⟨Name.attributeName "a", .scalar .text, "X-A", .required⟩,
          ⟨Name.attributeName "b", .scalar .text,
            Schema.wireName none (headerField "b" second 44).attributes "b", .required⟩] := rfl
  rw [attributeName_a, attributeName_b, wireName_headerField hsome] at hdefs
  exact ⟨rfl, Except.ok.inj (hfields.symm.trans hdefs)⟩

theorem builderApart (h : HeadersClass second c) : BuilderApart c := builderApart_of_plain h.builder

/-- The class can be made if the name of the second header has no character of a higher plane. -/
theorem classLoads (h : HeadersClass second c) (hplain : second.toList.any isAstral = false) :
    ClassLoads c := by
  refine classLoads_of_plain h.builder ?_ ?_
  · rw [hidesClass, h.fields]
    rfl
  · rw [h.fields]
    exact List.forall_mem_cons.mpr
      ⟨by decide, List.forall_mem_singleton.mpr ⟨Nat.zero_le _, hplain⟩⟩

theorem mem_fields_iff (h : HeadersClass second c) {f : FieldDef} :
    f ∈ c.fields ↔ f = headerA ∨ f = headerB second := by
  rw [h.fields, List.mem_cons, List.mem_singleton]

/-- Their instance with the texts `1` and `2`. -/
theorem exists_instance (h : HeadersClass second c) (htexts : TextClass c)
    (hc : m.class? c.name = some c) :
    Obtained m (.model c.name [("a", .text "1"), ("b", .text "2")]) ∧
      encodeHeaders m (.model c.name [("a", .text "1"), ("b", .text "2")]) =
        .ok [("X-A", "1"), (second, "2")] := by
  let value : FieldDef → Value := fun f => .text (if f.attr = "a" then "1" else "2")
  have hvalue : ∀ f ∈ c.fields, HoldsText f (value f) := fun _ _ => .text _
  have hobtained := htexts.obtained hc hvalue
  have hencoded := htexts.encodeHeaders hc hvalue
  rw [sentHeaders] at hencoded
  rw [h.fields] at hobtained hencoded
  exact ⟨hobtained, hencoded⟩

/-- Both fields take the header that comes last. -/
theorem decodeHeadersAs_folded (h : HeadersClass "x-a" c) (htexts : TextClass c)
    (hc : m.class? c.name = some c) :
    decodeHeadersAs m c.name (asSent [("X-A", "1"), ("x-a", "2")]) =
      .ok (.model c.name [("a", .text "2"), ("b", .text "2")]) := by
  have hupper : Text.toLower "X-A" = "x-a" := by decide +kernel
  have hlower : Text.toLower "x-a" = "x-a" := by decide +kernel
  have hlast : lookup? "x-a" (lowerNames (asSent [("X-A", "1"), ("x-a", "2")])) =
      some (.text "2") := by
    rw [lowerNames, lookup?_lastWins, asSent, List.map_map]
    simp only [List.map_cons, List.map_nil, Function.comp_apply, hupper, hlower]
    rfl
  have hread : decodeHeadersAs m c.name (asSent [("X-A", "1"), ("x-a", "2")]) =
      .ok (.model c.name (c.fields.map fun f => (f.attr, .text "2"))) := by
    refine htexts.decodeHeadersAs_of_lookup hc fun f hf => ?_
    rcases h.mem_fields_iff.mp hf with rfl | rfl
    · exact hupper.symm ▸ hlast
    · exact hlower.symm ▸ hlast
  rwa [h.fields] at hread

theorem headersApart (h : HeadersClass "x-b" c) : HeadersApart c where
  folded := by
    intro f hf g hg hlower
    have hne : Text.toLower "X-A" ≠ Text.toLower "x-b" := by decide +kernel
    rcases h.mem_fields_iff.mp hf with rfl | rfl <;> rcases h.mem_fields_iff.mp hg with rfl | rfl
    · rfl
    · exact absurd hlower hne
    · exact absurd hlower.symm hne
    · rfl
  absent := by
    intro f hf g _ habsent
    rcases h.mem_fields_iff.mp hf with rfl | rfl <;> cases habsent

end HeadersClass

theorem isText_headersStruct {second : String} (hwf : (headersStruct second).WellFormed) :
    ∀ f ∈ (Schema.resolveStruct (headersStruct second)).fields, IsText f.type := by
  intro f hf
  rw [Schema.resolveStruct_eq hwf] at hf
  obtain ⟨f₀, hf₀, rfl⟩ := List.mem_map.mp hf
  simp only [headersStruct, List.mem_cons, List.not_mem_nil, or_false] at hf₀
  rcases hf₀ with rfl | rfl
  · exact Or.inl rfl
  · exact Or.inl rfl

/-- What a source with these headers compiles to.  Its module can be loaded. -/
theorem exists_headers_compilation {text second : String}
    (hbuilt : (Tree.parse text "").errors = [] ∧
      (Schema.build (Tree.parse text "").source).errors = [] ∧
      (Schema.build (Tree.parse text "").source).schema.endpoints =
        [Schema.soleEndpoint (.struct { headersStruct second with capability := {} })])
    (hsome : second ≠ "") (hother : "X-A" ≠ second) (hplain : second.toList.any isAstral = false)
    (hliterals : Lexer.LiteralsNullFree text "") :
    ∃ compiled module c, compile text "" = .ok compiled ∧ compiled.diagnostics = [] ∧
      Schema.soleEndpoint (.struct (Schema.resolveStruct (headersStruct second))) ∈
        compiled.schema.endpoints ∧ compiled.modules = [module] ∧ module.classes = [c] ∧
      load module = .ok (settled module) ∧
      c.name = Schema.Method.className (Schema.soleMethod
        (.struct (Schema.resolveStruct (headersStruct second)))) "Header" ∧
      HeadersClass second c ∧ TextClass c := by
  have hwf := headersStruct_wellFormed hsome hother
  obtain ⟨compiled, module, c, className, hcompiled, hok, he, hmodules, hclasses, hclass⟩ :=
    exists_sole_item (j := .struct (headersStruct second)) hbuilt rfl rfl hwf
  have hheaders := HeadersClass.of_structClass hsome hclass
  have hload := load_of_compile hcompiled hok hliterals oneLine_empty
    (hmodules ▸ List.mem_singleton_self module)
    (hclasses ▸ List.forall_mem_singleton.mpr (hheaders.classLoads hplain))
  exact ⟨compiled, module, c, hcompiled, hok, he, hmodules, hclasses, hload,
    Client.name_of_itemClass hclass, hheaders,
    textClass_of_structClass hwf rfl (isText_headersStruct hwf) hclass⟩

/-- The first header is lost among headers whose names differ in case only. -/
theorem folded_header_lost : ∃ compiled e m s module c loaded, compile foldedText "" = .ok compiled ∧
    compiled.diagnostics = [] ∧ e ∈ compiled.schema.endpoints ∧ m ∈ e.methods ∧
    .struct s ∈ m.items ∧ s.role = some .header ∧ (∀ f ∈ s.fields, IsText f.type) ∧
    module ∈ compiled.modules ∧ module.class? (m.className s.name) = some c ∧ BuilderApart c ∧
    load module = .ok loaded ∧
    ∃ v, v = .model c.name [("a", .text "1"), ("b", .text "2")] ∧ Obtained loaded v ∧
      encodeHeaders loaded v = .ok [("X-A", "1"), ("x-a", "2")] ∧
      decodeHeadersAs loaded c.name (asSent [("X-A", "1"), ("x-a", "2")]) =
        .ok (.model c.name [("a", .text "2"), ("b", .text "2")]) := by
  obtain ⟨compiled, module, c, hcompiled, hok, he, hmodules, hclasses, hload, hname, hheaders,
    htexts⟩ := exists_headers_compilation folded_built (by decide) (by decide) (by decide)
      folded_literals
  have hc := class?_settled_sole hclasses hheaders.builder
  obtain ⟨hobtained, hencoded⟩ := hheaders.exists_instance htexts hc
  refine ⟨compiled, _, _, _, module, c, _, hcompiled, hok, he, List.mem_singleton_self _,
    List.mem_singleton_self _, rfl,
    isText_headersStruct (headersStruct_wellFormed (by decide) (by decide)),
    hmodules ▸ List.mem_singleton_self module, hname ▸ class?_sole hclasses,
    hheaders.builderApart, hload, _, rfl, hobtained, hencoded,
    hheaders.decodeHeadersAs_folded htexts hc⟩

/-- Names that differ in a letter are kept apart, and may arrive in another case. -/
theorem apart_headers_return : ∃ compiled e m s module c loaded v,
    compile apartText "" = .ok compiled ∧ compiled.diagnostics = [] ∧
    e ∈ compiled.schema.endpoints ∧ m ∈ e.methods ∧
    .struct s ∈ m.items ∧ s.role = some .header ∧ (∀ f ∈ s.fields, IsText f.type) ∧
    module ∈ compiled.modules ∧ load module = .ok loaded ∧ BuilderApart c ∧ HeadersApart c ∧
    HeadersComeBack loaded c ∧ v = .model c.name [("a", .text "1"), ("b", .text "2")] ∧
    encodeHeaders loaded v = .ok [("X-A", "1"), ("x-b", "2")] ∧
    decodeHeadersAs loaded c.name [("x-A", .text "1"), ("X-B", .text "2")] = .ok v := by
  obtain ⟨compiled, module, c, hcompiled, hok, he, hmodules, hclasses, hload, -, hheaders,
    htexts⟩ := exists_headers_compilation apart_built (by decide) (by decide) (by decide)
      apart_literals
  have hc := class?_settled_sole hclasses hheaders.builder
  have hwf : (headersStruct "x-b").WellFormed := headersStruct_wellFormed (by decide) (by decide)
  have hrole : (Schema.resolveStruct (headersStruct "x-b")).role = some .header := rfl
  have htext := isText_headersStruct hwf
  obtain ⟨found, hmodule, -, d, hfound, hread⟩ := headers_come_back_iff hcompiled hok he
    (List.mem_singleton_self _) (List.mem_singleton_self _) hrole htext
  rw [hmodules, List.mem_singleton] at hmodule
  subst hmodule
  have hd := List.mem_of_find?_eq_some hfound
  rw [hclasses, List.mem_singleton] at hd
  subst hd
  obtain ⟨-, hiff⟩ := hread _ hload
  have hapart := hheaders.headersApart
  have hback := (hiff hheaders.builderApart).mpr hapart
  obtain ⟨hobtained, hencoded⟩ := hheaders.exists_instance htexts hc
  obtain ⟨sent, hsent, hreturn⟩ := hback _ hobtained hc
  obtain rfl := Except.ok.inj (hencoded.symm.trans hsent)
  exact ⟨compiled, _, _, _, found, d, _, _, hcompiled, hok, he, List.mem_singleton_self _,
    List.mem_singleton_self _, hrole, htext, hmodules ▸ List.mem_singleton_self found, hload,
    hheaders.builderApart, hapart, hback, rfl, hencoded,
    hreturn _ (arrives_of_sameButCase (.cons ⟨by decide, rfl⟩ (.cons ⟨by decide, rfl⟩ .nil)))⟩

end Wire
end EndpointDsl
