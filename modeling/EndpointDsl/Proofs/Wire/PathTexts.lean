import EndpointDsl.Proofs.Text.Percent
import EndpointDsl.Proofs.Wire.Requests

/-!
The text that a field has in a path, beside the one that it has everywhere else.

A query string, a header and a body are written from the document of an instance, while the path is
filled from its attributes.  Both give a number, a truth value, a text and a date the same text.
They never agree on octets, which are shown in quotes, nor on moments, which are shown with a space
between date and time.
-/

namespace EndpointDsl

theorem DateTime.text_ne_wireText (t : DateTime) : t.text " " ≠ t.wireText := by
  intro h
  have hchars := congrArg String.toList h
  simp only [DateTime.text, wireText, localText, String.toList_append, List.append_assoc] at hchars
  have hrest := List.append_cancel_left hchars
  exact absurd (List.cons.inj hrest).1 (by decide)

namespace Schema

/-- The types of octets and of moments have one name each. -/
theorem kind_ne_iff_name_ne {name : String} {kind : Scalar}
    (h : Scalar.ofName? name = some kind) :
    kind ≠ .bytes ∧ kind ≠ .dateTime ↔ name ≠ "Bytes" ∧ name ≠ "DateTime" := by
  have hall : ∀ p ∈ scalars,
      (p.2 ≠ .bytes ∧ p.2 ≠ .dateTime ↔ p.1 ≠ "Bytes" ∧ p.1 ≠ "DateTime") := by
    decide
  exact hall _ (Client.mem_scalars_of_ofName? h)

end Schema

namespace Wire

open Client (ClassDef FieldDef FieldType Module)
open Schema (Endpoint Method Struct Field Scalar)

/-! ## Scalars -/

/-- A document has one text, in a query as in a header. -/
structure ShowsText (j : Json) (text : String) : Prop where
  scalar : scalarText? j = some text
  query : ∀ key, queryPairs? [(key, j)] = some [(key, text)]
  header : headerText? j = some text

section

variable {module : Module} {kind : Scalar} {v : Value} {w : Writing} {n : Nesting} {j : Json}

/-- The document of a scalar. -/
inductive ScalarDocument : Value → Json → Prop
  | text (s : String) : ScalarDocument (.text s) (.string s)
  | bool (b : Bool) : ScalarDocument (.bool b) (.bool b)
  | int (n : Int) : ScalarDocument (.int n) (.int n)
  | float (x : Binary64) : ScalarDocument (.float x) (.float x)
  | bytes (s : String) : ScalarDocument (.bytes (Text.utf8 s)) (.string s)
  | dateTime (t : DateTime) : ScalarDocument (.dateTime t) (.string t.wireText)
  | date (d : Date) : ScalarDocument (.date d) (.string d.text)

theorem scalarDocument_of_encodeIn (hv : kind.Holds v)
    (hj : encodeIn w n (Shape.ofType module (.scalar kind)) v = .ok j) : ScalarDocument v j := by
  cases hv with
  | text s => cases hj; exact .text s
  | bool b => cases hj; exact .bool b
  | int n => cases hj; exact .int n
  | natural hn => cases hj; exact .int _
  | float x => cases hj; exact .float x
  | bytes b =>
    obtain ⟨s, rfl, rfl⟩ := encodeBytes_eq_ok hj
    exact .bytes s
  | @dateTime t ht =>
    rw [encodeIn, misfit?_ofType_scalar] at hj
    cases hj
    exact .dateTime t
  | @date d hd =>
    rw [encodeIn, misfit?_ofType_scalar] at hj
    cases hj
    exact .date d

theorem scalarText?_eq_some_iff {text : String} :
    scalarText? j = some text ↔ isWritableJson j = true ∧ scalarText j = text := by
  rw [scalarText?, Option.ite_none_right_eq_some, Option.some.injEq]

theorem pathText?_eq_some_iff {text : String} :
    pathText? module v = some text ↔ v.isWritable = true ∧ pathTextOf? module v = some text := by
  rw [pathText?, Option.ite_none_right_eq_some]

/-- The document can be written if the value can. -/
theorem ScalarDocument.isWritableJson_eq (h : ScalarDocument v j) :
    isWritableJson j = v.isWritable := by
  cases h <;> rfl

theorem ScalarDocument.showsText (h : ScalarDocument v j) (hwritable : v.isWritable = true) :
    ShowsText j (scalarText j) := by
  have hscalar : scalarText? j = some (scalarText j) :=
    scalarText?_eq_some_iff.mpr ⟨h.isWritableJson_eq.trans hwritable, rfl⟩
  refine ⟨hscalar, fun key => ?_, ?_⟩
  · have hone : queryScalars j = [j] := by cases h <;> rfl
    rw [queryPairs?, List.flatMap_singleton, hone, List.map_singleton, List.mapM_cons, hscalar]
    rfl
  · cases h <;> exact hscalar

/-- The text in a path is that of the document for all scalars but octets and moments. -/
theorem ScalarDocument.pathText_eq_iff {text : String} (h : ScalarDocument v j)
    (hv : kind.Holds v) (htext : pathTextOf? module v = some text) :
    text = scalarText j ↔ kind ≠ .bytes ∧ kind ≠ .dateTime := by
  cases h with
  | bytes s =>
    cases hv
    obtain rfl : Text.quotedBytes (Text.utf8 s) = text := Option.some.inj htext
    exact iff_of_false (Text.quotedBytes_utf8_ne s) (by decide)
  | dateTime t =>
    cases hv
    obtain rfl : t.text " " = text := Option.some.inj htext
    exact iff_of_false t.text_ne_wireText (by decide)
  | date d =>
    cases hv
    obtain rfl : d.text = text := Option.some.inj htext
    exact iff_of_true rfl (by decide)
  | _ => cases hv <;> cases htext <;> exact iff_of_true rfl (by decide)

end

/-! ## Fields -/

/-- A field that gives a path parameter its value. -/
structure FilledBy (m : Method) (p : String) (role : Role) (s : Struct) (f : Field) : Prop where
  mayFill : role ∈ Schema.pathRoles
  found : m.findRole? (some role) = some s
  mem : f ∈ s.fields
  name : f.name = p

/-- The encoded form of an instance has a document under a key. -/
def HasEntry (module : Module) (v : Value) (key : String) (j : Json) : Prop :=
  ∃ entries, encodeInstance module v = .ok (.object entries) ∧ lookup? key entries = some j

section

variable {module : Module} {e : Endpoint} {m : Method} {s : Struct} {c : ClassDef}
  {value : FieldDef → Value} {v : Value} {x : Role → Value}

/-- What is not null has an entry under its wire name. -/
theorem InstanceOf.hasEntry (h : InstanceOf module s c value v) {d : FieldDef} (hd : d ∈ c.fields)
    (hne : value d ≠ .null) {document : Json} (hencode : encodeInstance module v = .ok document) :
    ∃ j, HasEntry module v d.wire j ∧
      encodeIn (.ofModule module) (.start (Reader.ofModule module) c.name)
        (Shape.ofType module d.fieldType) (value d) = .ok j := by
  obtain ⟨entry, hwrites, rfl, -⟩ := h.entries hencode
  refine ⟨entry d, ⟨_, hencode, lookup?_of_mem ?_ (List.mem_map.mpr ⟨d, ?_, rfl⟩)⟩, ?_⟩
  · rw [List.map_map]
    exact h.lawful.wires.sublist (List.filter_sublist.map _)
  · have hkept : ¬ isOmitted c value d = true := fun homitted =>
      hne (isOmitted_iff.mp homitted).1
    exact List.mem_filter.mpr ⟨hd, by simpa using hkept⟩
  · obtain ⟨c', d', held, hc, hfound, hheld, hwritten⟩ := hwrites d hd
    cases h.classOf?.symm.trans hc
    cases (field?_of_mem h.lawful.attrs hd).symm.trans hfound
    cases (h.attribute? hd).symm.trans hheld
    exact hwritten

/-- Fields of one name are the same. -/
theorem InstanceOf.eq_of_name (h : InstanceOf module s c value v) {f g : Field}
    (hf : f ∈ s.fields) (hg : g ∈ s.fields) (hname : f.name = g.name) : f = g := by
  have hattrs : (s.fields.map fun f => Name.attributeName f.name).Nodup := by
    rw [map_eq_of_forall₂ h.declared fun f d hd => hd.attr.symm]
    exact h.lawful.attrs
  exact List.inj_on_of_nodup_map hattrs hf hg (congrArg Name.attributeName hname)

/-- The text of a parameter, and what its field has in the encoded form of the instance. -/
theorem Offers.entry_of_filledBy (h : Offers module e m) (hapart : UriApart module m)
    (hx : SuppliedUri (settled module) m x) {p text : String} (hp : p ∈ m.path.parameters)
    (htext : ParameterText (settled module) m x p text) {role : Role} {f : Field}
    (hfilled : FilledBy m p role s f) :
    ∃ j other, HasEntry (settled module) (x role) (s.wire f) j ∧ ShowsText j other ∧
      (text = other ↔ f.type ≠ .primitive "Bytes" ∧ f.type ≠ .primitive "DateTime") := by
  obtain ⟨hmay, hs, hf, rfl⟩ := hfilled
  have hcovers : m.Covers role f.name := ⟨hmay, s, hs, List.mem_map.mpr ⟨f, hf, rfl⟩⟩
  have hrole := mem_uriRoles_of_covers hp hcovers
  have hv := hx role hrole s hs
  obtain ⟨c, value, hinstance⟩ := h.exists_instance hs (hapart role hrole s hs) hv
  obtain ⟨scalar, htype⟩ : ∃ scalar, f.type = .primitive scalar := by
    obtain ⟨role', -, t, g, scalar, ht, hg, hname, htype, honly⟩ :=
      Schema.exists_covers (h.wellFormed.methods m h.mem) hp
    obtain rfl := honly role hcovers
    cases hs.symm.trans ht
    rw [hinstance.eq_of_name hf hg hname.symm]
    exact ⟨scalar, htype⟩
  obtain ⟨d, hd, hdeclared⟩ := exists_of_mem_forall₂_left hinstance.declared hf
  obtain ⟨kind, hkind, hdtype⟩ := hdeclared.scalar scalar htype
  have hholds := hinstance.holds_scalar hd hdtype
  obtain ⟨document, hdocument⟩ := hv.encodes
  obtain ⟨j, hentry, hwritten⟩ :=
    hinstance.hasEntry hd (ne_null_of_holds hholds) hdocument
  rw [hdtype] at hwritten
  rw [hdeclared.wire] at hentry
  have hscalar := scalarDocument_of_encodeIn hholds hwritten
  obtain ⟨hwritable, hshown⟩ : (value d).isWritable = true ∧
      pathTextOf? (settled module) (value d) = some text := by
    obtain ⟨held, ⟨role', -, honly, hheld⟩, -, hshown⟩ := htext
    obtain rfl := honly role hcovers
    rw [← hdeclared.attr] at hheld
    cases (hinstance.attribute? hd).symm.trans hheld
    exact pathText?_eq_some_iff.mp hshown
  refine ⟨j, _, hentry, hscalar.showsText hwritable, ?_⟩
  rw [hscalar.pathText_eq_iff hholds hshown, Schema.kind_ne_iff_name_ne hkind, htype]
  simp

end

/-- For every method of a source that compiles there is a module.  Whenever it can be loaded and no
attribute of a structure that the URI is made from is the name of a builder method, the URI function
of the method fills each parameter with the percent-encoding of one text, and the field that covers
the parameter has an entry in the encoded form of its instance.  The two texts are the same unless
the field is of octets or a moment.  Where a whole number in the URI has too many digits to be
written there is no text and no URI. -/
theorem path_text_agrees_iff {text unit : String} {compiled : Compilation} {e : Endpoint}
    {m : Method} (hcompiled : compile text unit = .ok compiled) (hok : compiled.diagnostics = [])
    (he : e ∈ compiled.built.schema.endpoints) (hm : m ∈ e.methods) :
    ∃ module ∈ compiled.modules, module.endpoint = e.name ∧
      (UriApart module m → ∀ loaded, load module = .ok loaded →
        ∀ x, SuppliedUri loaded m x →
          (UriWritable loaded m x → ∃ (shown : String → String) (pairs : List (String × String)),
            call loaded (m.identifier ++ "_uri") (m.uriRoles.map x) =
              .ok (.value (.text
                (withQuery (m.path.filled fun p => Text.percentEncoded (shown p)) pairs))) ∧
            ∀ p ∈ m.path.parameters, ParameterText loaded m x p (shown p) ∧
              ∀ role s f, FilledBy m p role s f →
                ∃ j other, HasEntry loaded (x role) (s.wire f) j ∧ ShowsText j other ∧
                  (Text.percentEncoded (shown p) = Text.percentEncoded other ↔
                    f.type ≠ .primitive "Bytes" ∧ f.type ≠ .primitive "DateTime")) ∧
          (¬ UriWritable loaded m x →
            call loaded (m.identifier ++ "_uri") (m.uriRoles.map x) = .error .numeralTooLong)) := by
  obtain ⟨module, hmodule, hname, h⟩ := offers_of_compile hcompiled hok he hm
  refine ⟨module, hmodule, hname, fun hapart loaded hload x hx => ?_⟩
  obtain rfl := settled_of_load hload
  obtain ⟨huri, hlong⟩ := h.callUri hapart hx
  have hcalls := h.call_uri (m.uriRoles.map x)
  constructor
  · intro hwritable
    obtain ⟨uri, ⟨shown, document, pairs, htexts, -, -, rfl⟩, hcall⟩ := huri hwritable
    rw [hcall] at hcalls
    refine ⟨shown, pairs, hcalls, fun p hp => ⟨htexts p hp, fun role s f hfilled => ?_⟩⟩
    obtain ⟨j, other, hentry, hshows, hagrees⟩ :=
      h.entry_of_filledBy hapart hx hp (htexts p hp) hfilled
    exact ⟨j, other, hentry, hshows, Text.percentEncoded_inj.trans hagrees⟩
  · intro hnot
    rw [hlong hnot] at hcalls
    exact hcalls

/-- The number that fills a path is the one of the document. -/
theorem shared_number_agrees : ∃ compiled module loaded x pairs j other, ∃ shown : String → String,
    compile sharedText "" = .ok compiled ∧ module ∈ compiled.modules ∧
    load module = .ok loaded ∧ SuppliedUri loaded sharedMethod x ∧
    call loaded (sharedMethod.identifier ++ "_uri") (sharedMethod.uriRoles.map x) =
      .ok (.value (.text (withQuery
        (sharedMethod.path.filled fun p => Text.percentEncoded (shown p)) pairs))) ∧
    HasEntry loaded (x .query) (sharedQuery.wire (sharedField "a" 27)) j ∧
    scalarText? j = some other ∧ Text.percentEncoded (shown "a") = Text.percentEncoded other := by
  obtain ⟨compiled, module, c, hcompiled, hok, hendpoints, hmodules, hload, hclasses, hshared,
    hclass⟩ := shared_compiles
  have hapart : UriApart module sharedMethod := by
    intro _ _ _ _ d hd _
    obtain rfl := List.mem_singleton.mp (hclasses ▸ hd)
    exact builderApart_of_plain hshared.builder
  have hx : SuppliedUri (settled module) sharedMethod fun _ => sharedValue c := by
    intro role hrole s hs
    obtain rfl := List.mem_singleton.mp (show role ∈ [.query] from hrole)
    cases hs
    exact argument_shared hshared hclass
  obtain ⟨found, hfound, -, hcalls⟩ := path_text_agrees_iff hcompiled hok
    (hendpoints ▸ List.mem_singleton_self sharedEndpoint) (List.mem_singleton_self sharedMethod)
  rw [hmodules, List.mem_singleton] at hfound
  subst hfound
  obtain ⟨shown, pairs, hcall, hparams⟩ :=
    (hcalls hapart _ hload _ hx).1 (uriWritable_shared hshared hclass)
  obtain ⟨-, hfields⟩ := hparams "a" (List.mem_singleton_self _)
  obtain ⟨j, other, hentry, hshows, hagrees⟩ := hfields .query sharedQuery (sharedField "a" 27)
    ⟨by decide, rfl, List.mem_cons_self, rfl⟩
  exact ⟨compiled, found, _, _, pairs, j, other, shown, hcompiled,
    hmodules ▸ List.mem_singleton_self _, hload, hx, hcall, hentry, hshows.scalar,
    hagrees.mpr ⟨by decide, by decide⟩⟩

/-! ## Octets in a path -/

def octetText : String := "[pub A:\x7bGET \"/\x7ba\x7d\"=>\x7bQuery\x7ba:Bytes\x7d\x7d\x7d]"

def octetField : Field where
  name := "a"
  type := .primitive "Bytes"
  attributes := []
  location := Schema.onFirstLine 27

def octetQuery : Struct where
  name := "Query"
  role := some .query
  fields := [octetField]
  attributes := []
  location := Schema.onFirstLine 21

def octetMethod : Method := { sharedMethod with items := [.struct octetQuery] }

def octetEndpoint : Endpoint := { sharedEndpoint with methods := [octetMethod] }

theorem octet_built : (Tree.parse octetText "").errors = [] ∧
    (Schema.build (Tree.parse octetText "").source).errors = [] ∧
    (Schema.build (Tree.parse octetText "").source).schema.endpoints = [octetEndpoint] := by
  cbv

theorem octet_literals : Lexer.LiteralsNullFree octetText "" := by
  have hlexemes : (Lexer.tokenize octetText "").map (fun list =>
      (list.tokens.map (·.lexeme)).filterMap Lexeme.literal?) = .ok ["/\x7ba\x7d"] := by
    cbv
  exact Lexer.literalsNullFree_of_tokenize hlexemes (by decide)

/-- The query with the capability that its role gives it. -/
def sentOctets : Struct := { octetQuery with capability := ⟨true, false, true⟩ }

theorem octet_capable :
    octetEndpoint.withCapabilities =
      { octetEndpoint with methods := [{ octetMethod with items := [.struct sentOctets] }] } := by
  cbv

theorem sentOctets_wellFormed : sentOctets.WellFormed :=
  Schema.wellFormed_of_plain ⟨nofun, Nat.zero_le 1, nofun⟩ (List.forall_mem_singleton.mpr rfl)
    (List.nodup_singleton _) (List.nodup_singleton _) (List.nodup_singleton _)

theorem octetEndpoint_wellFormed : octetEndpoint.WellFormed := by
  refine Schema.wellFormed_of_sole_item (j := .struct sentOctets) rfl rfl rfl
    (List.nodup_singleton _) ?_ ?_ sentOctets_wellFormed
  · intro p hp
    obtain rfl := List.mem_singleton.mp hp
    exact ⟨octetField, "Bytes", by decide, rfl⟩
  · rw [octet_capable]
    rfl

def fieldOctets : FieldDef := ⟨"a", .scalar .bytes, "a", .required⟩

/-- The class of the query. -/
structure OctetClass (c : ClassDef) : Prop where
  name : c.name = octetMethod.className "Query"
  base : c.base = .queryEncodable
  builder : c.builder = false
  fields : c.fields = [fieldOctets]

theorem exists_octetClass {module : Module}
    (h : Client.ofEndpoint "" (Schema.resolveEndpoint octetEndpoint) = .ok module) :
    ∃ c, module.classes = [c] ∧ OctetClass c := by
  have hentries : (Schema.resolveEndpoint octetEndpoint).entries =
      [⟨0, { octetMethod with items := [.struct (Schema.resolveStruct sentOctets)] },
        .struct (Schema.resolveStruct sentOctets)⟩] := by
    rw [Schema.resolveEndpoint, octet_capable]
    rfl
  obtain ⟨c, className, hclasses, hclass⟩ := exists_class_of_entry h hentries
  refine ⟨c, hclasses, ?_⟩
  obtain ⟨base, fields, hbase, hfields, rfl⟩ := Client.structClass_eq_ok_iff.mp hclass
  have hdefs : (Schema.resolveStruct sentOctets).fields.mapM (Client.fieldDef className "Query") =
      .ok [⟨Name.attributeName "a", .scalar .bytes, "a", .required⟩] := rfl
  rw [attributeName_a] at hdefs
  exact ⟨rfl, (Except.ok.inj hbase).symm, rfl, Except.ok.inj (hfields.symm.trans hdefs)⟩

theorem OctetClass.classLoads {c : ClassDef} (h : OctetClass c) : ClassLoads c := by
  refine classLoads_of_plain h.builder ?_ ?_
  · rw [hidesClass, h.fields]
    rfl
  · rw [h.fields]
    decide

section

variable {module : Module} {c : ClassDef}

def octetValue (c : ClassDef) : Value := .model c.name [("a", .bytes (Text.utf8 "a"))]

/-- A text stands for the octets that encode it. -/
theorem construct_octets (hoctet : OctetClass c) (hc : module.class? c.name = some c) :
    construct module c.name [("a", .text "a")] = .ok (octetValue c) := by
  rw [construct, hc]
  refine checked_eq_ok_iff.mpr ?_
  have hgiven : ∀ s n, checkFields s n c.fields [("a", .text "a")] =
      .ok [⟨"a", some (.bytes (Text.utf8 "a")), .null⟩] := by
    intro s n
    rw [hoctet.fields, checkFields_eq_ok_iff]
    refine .cons ?_ .nil
    have hread : checkValue s n (.scalar .bytes) (.text "a") = .ok (.bytes (Text.utf8 "a")) := by
      rw [checkValue_scalar_eq_ok_iff]
      rfl
    rw [checkField_of_entry (show entryFor? _ _ = some ("a", .text "a") from rfl), fieldOctets,
      hread]
    rfl
  show checkClass _ _ c _ = _
  rw [checkClass_object, hgiven]
  show assemble c _ = _
  rw [assemble, if_neg (by rw [hoctet.base]; decide)]
  rfl

theorem encodeAttrs_octets (hoctet : OctetClass c) (w : Writing) (n : Nesting) :
    encodeAttrs w n c [("a", .bytes (Text.utf8 "a"))] = .ok [("a", .string "a")] := by
  have hfield : c.field? "a" = some fieldOctets := by
    rw [ClassDef.field?, hoctet.fields]
    rfl
  have hbytes : encodeIn w n .free (.bytes (Text.utf8 "a")) = .ok (.string "a") := by
    rw [encodeIn]
    show encodeBytes (Text.utf8 "a") = _
    rw [encodeBytes, Text.ofUtf8, Text.ofUtf8?_utf8]
  rw [encodeAttrs, hfield, encodeAttrs]
  show (do let j ← encodeIn w n .free (.bytes (Text.utf8 "a")); _) = _
  rw [hbytes]
  rfl

theorem encodeInstance_octets (hoctet : OctetClass c) (hc : module.class? c.name = some c) :
    encodeInstance module (octetValue c) = .ok (.object [("a", .string "a")]) := by
  have hcan : c.base.canEncode = true := by
    rw [hoctet.base]
    rfl
  exact encodeInstance_model hc hcan (encodeAttrs_octets hoctet _ _)

theorem argument_octets (hoctet : OctetClass c) (hc : module.class? c.name = some c) :
    Argument module octetMethod octetQuery (octetValue c) where
  obtained := by
    refine .constructed (fun e he => ?_) (construct_octets hoctet hc)
    obtain rfl := List.mem_singleton.mp he
    exact .scalar trivial trivial
  ofClass := ⟨c, hc, hoctet.name⟩
  encodes := ⟨_, encodeInstance_octets hoctet hc⟩

theorem uriWritable_octets : UriWritable module octetMethod fun _ => octetValue c where
  path := by
    intro p hp v hv
    obtain rfl := List.mem_singleton.mp hp
    obtain ⟨role, -, -, hheld⟩ := hv
    rw [attributeName_a] at hheld
    obtain rfl : Value.bytes (Text.utf8 "a") = v := Option.some.inj hheld
    rfl
  query := by
    intro s hs f hf hnot
    cases hs
    obtain rfl := List.mem_singleton.mp hf
    exact absurd (List.mem_singleton_self _) hnot

end

/-- The octets are the text of a single letter in the document, and shown in quotes in the path. -/
theorem octets_quoted_in_path : ∃ compiled module loaded x, compile octetText "" = .ok compiled ∧
    compiled.diagnostics = [] ∧ module ∈ compiled.modules ∧ load module = .ok loaded ∧
    UriApart module octetMethod ∧ SuppliedUri loaded octetMethod x ∧
    HasEntry loaded (x .query) (octetQuery.wire octetField) (.string "a") ∧
    scalarText? (.string "a") = some "a" ∧ Text.percentEncoded "a" = "a" ∧
    call loaded (octetMethod.identifier ++ "_uri") (octetMethod.uriRoles.map x) =
      .ok (.value (.text "/b%27a%27")) := by
  obtain ⟨compiled, module, hcompiled, hok, hendpoints, hmodules, hmade⟩ :=
    exists_sole_module octet_built octetEndpoint_wellFormed
  obtain ⟨c, hclasses, hoctet⟩ := exists_octetClass hmade
  have hclass := class?_settled_sole hclasses hoctet.builder
  have hapart : UriApart module octetMethod := by
    intro _ _ _ _ d hd _
    obtain rfl := List.mem_singleton.mp (hclasses ▸ hd)
    exact builderApart_of_plain hoctet.builder
  have hload := load_of_compile hcompiled hok octet_literals oneLine_empty
    (hmodules ▸ List.mem_singleton_self module)
    (hclasses ▸ List.forall_mem_singleton.mpr hoctet.classLoads)
  have hx : SuppliedUri (settled module) octetMethod fun _ => octetValue c := by
    intro role hrole s hs
    obtain rfl := List.mem_singleton.mp (show role ∈ [.query] from hrole)
    cases hs
    exact argument_octets hoctet hclass
  obtain ⟨found, hfound, -, hoffers⟩ := offers_of_compile hcompiled hok
    (hendpoints ▸ List.mem_singleton_self octetEndpoint) (List.mem_singleton_self octetMethod)
  rw [hmodules, List.mem_singleton] at hfound
  subst hfound
  obtain ⟨uri, ⟨shown, document, pairs, htexts, -, hpairs, rfl⟩, hcall⟩ :=
    (hoffers.callUri hapart hx).1 uriWritable_octets
  have hshown : shown "a" = Text.quotedBytes (Text.utf8 "a") := by
    obtain ⟨held, ⟨role, -, -, hheld⟩, -, htext⟩ := htexts "a" (List.mem_singleton_self _)
    rw [attributeName_a] at hheld
    obtain rfl : Value.bytes (Text.utf8 "a") = held := Option.some.inj hheld
    exact (Option.some.inj htext).symm
  have huri : withQuery (octetMethod.path.filled fun p => Text.percentEncoded (shown p)) pairs =
      "/b%27a%27" := by
    obtain rfl : [] = pairs := Option.some.inj hpairs
    show "" ++ "/" ++ Text.percentEncoded (shown "a") = _
    rw [hshown]
    decide
  have hcalls := hoffers.call_uri (octetMethod.uriRoles.map fun _ => octetValue c)
  rw [hcall, huri] at hcalls
  exact ⟨compiled, found, _, _, hcompiled, hok, hmodules ▸ List.mem_singleton_self _, hload,
    hapart, hx, ⟨_, encodeInstance_octets hoctet hclass, rfl⟩, by decide, by decide, hcalls⟩

end Wire
end EndpointDsl
