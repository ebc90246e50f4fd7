import EndpointDsl.Proofs.Client.Closed
import EndpointDsl.Proofs.Text.Literals

/-!
What the literals in a generated module stand for.

A module writes the wire names of members, the paths of methods, their parameters and the keys that
a query leaves out.  Read as code, each of these literals has the UTF-16 units of its text for a
value, so it stands for the text itself exactly if the text lies in the basic plane.
-/

namespace EndpointDsl
namespace Schema

/-- The wire names of the members of an item. -/
def Item.wireNames : Item → List String
  | .struct s => s.wireNames
  | .enum e => e.wireNames

/-- The texts that a URI is written with: the path, its parameters, and the wire names of the query
fields that fill parameters. -/
def Method.uriTexts (m : Method) : List String :=
  m.path.raw :: m.path.parameters ++ ((m.findRole? (some .query)).map (Client.pathKeys m)).getD []

end Schema

namespace Client

open Schema (Endpoint Item Method)
open Text (Reads IsPlain IsBasic Place utf16 literals? reads_of_run reads_isPlain
  reads_asciiLiteral reads_of_isOutside)

/-! ## Fields -/

section

variable {f : FieldDef}

theorem isPlain_factory (value : Zero) : IsPlain value.factory := by
  cases value <;> decide

theorem isPlain_text {t : FieldType} (h : ∀ name ∈ t.className?, IsWord name) : IsPlain t.text := by
  induction t with
  | scalar kind => cases kind <;> decide
  | list item ih =>
    rw [FieldType.text, Text.isPlain_append, Text.isPlain_append]
    exact ⟨⟨by decide, ih h⟩, by decide⟩
  | optional inner ih =>
    rw [FieldType.text, Text.isPlain_append, Text.isPlain_append]
    exact ⟨⟨by decide, ih h⟩, by decide⟩
  | unit => decide
  | model className => exact Text.isPlain_of_wordChars (h className rfl).1

theorem reads_alias (before s : String) (h : Reads (.code false) before [] (.code false)) :
    Reads (.code false) (before ++ ("alias=" ++ Layout.stringLiteral s) ++ ")") [utf16 s]
      (.code false) := by
  have hlabel : Reads (.code false) "alias=" [] (.code false) := reads_of_run fun _ => rfl
  have hclose : Reads .closed ")" [] (.code false) := reads_of_run fun _ => rfl
  exact (h.append (hlabel.append (reads_asciiLiteral s))).append hclose

theorem reads_fieldDefault (f : FieldDef) :
    Reads (.code false) (Layout.fieldDefault f) [utf16 f.wire] (.code false) := by
  unfold Layout.fieldDefault
  cases f.fallback with
  | required | builder => exact reads_alias "Field(" f.wire (reads_of_run fun _ => rfl)
  | absent => exact reads_alias "Field(default=None, " f.wire (reads_of_run fun _ => rfl)
  | zero value =>
    obtain ⟨afterWord, hvalue⟩ := reads_isPlain (isPlain_factory value) false
    have hcall : Reads (.code false) "Field(default_factory=" [] (.code false) :=
      reads_of_run fun _ => rfl
    have hcomma : Reads (.code afterWord) ", " [] (.code false) := reads_of_run fun _ => rfl
    exact reads_alias _ f.wire ((hcall.append hvalue).append hcomma)

/-- The only literal in the line of a field is its wire name. -/
theorem literals?_fieldLine (hattr : IsPlain f.attr) (htype : IsPlain f.fieldType.text) :
    literals? (Layout.fieldLine f) = some [utf16 f.wire] := by
  obtain ⟨afterAttr, hattr⟩ := reads_isPlain hattr false
  obtain ⟨afterType, htype⟩ := reads_isPlain htype false
  have hindent : Reads (.code false) "    " [] (.code false) := reads_of_run fun _ => rfl
  have hcolon : Reads (.code afterAttr) ": " [] (.code false) := reads_of_run fun _ => rfl
  have hequals : Reads (.code afterType) " = " [] (.code false) := reads_of_run fun _ => rfl
  have hline := ((((hindent.append hattr).append hcolon).append htype).append hequals).append
    (reads_fieldDefault f)
  exact Text.literals?_of_reads hline trivial

end

/-! ## URIs -/

section

variable {values : List PathValue}

theorem reads_pathValueText {v : PathValue} (h : IsPlain v.attr) :
    ∃ q : Place, q.IsOutside ∧
      Reads (.code false) (Layout.pathValueText v) [utf16 v.parameter] q := by
  have hcolon : Reads .closed ": " [] (.code false) := reads_of_run fun _ => rfl
  have hplain : IsPlain (argumentName v.role ++ "." ++ v.attr) := by
    rw [Text.isPlain_append, Text.isPlain_append]
    refine ⟨⟨?_, by decide⟩, h⟩
    cases v.role <;> decide
  obtain ⟨afterWord, hattribute⟩ := reads_isPlain hplain false
  refine ⟨.code afterWord, trivial, ?_⟩
  have htext := ((reads_asciiLiteral v.parameter).append hcolon).append hattribute
  rwa [← String.append_assoc, ← String.append_assoc] at htext

theorem reads_substitution (template : String) (h : ∀ v ∈ values, IsPlain v.attr) :
    Reads (.code false) (Layout.substitution template values)
      (utf16 template :: values.map fun v => utf16 v.parameter) (.code false) := by
  have hcall : Reads (.code false) "runtime.substitute_path(" [] (.code false) :=
    reads_of_run fun _ => rfl
  have hcomma : Reads .closed ", " [] (.code false) := reads_of_run fun _ => rfl
  have hclose : Reads (.code false) ")" [] (.code false) := reads_of_run fun _ => rfl
  have hvalues : Reads (.code false)
      (Layout.braces (String.intercalate ", " (values.map Layout.pathValueText)))
      (values.map fun v => utf16 v.parameter) (.code false) :=
    Text.reads_bracketed (reads_of_run fun _ => rfl) (fun _ => reads_of_isOutside
      (fun _ => reads_of_run fun _ => rfl) (reads_of_run fun _ => rfl))
      fun v hv => reads_pathValueText (h v hv)
  have htext := (((hcall.append (reads_asciiLiteral template)).append hcomma).append
    hvalues).append hclose
  rwa [List.append_nil] at htext

theorem reads_tupleLiteral (keys : List String) :
    Reads (.code false) (Layout.tupleLiteral keys) (keys.map utf16) (.code false) := by
  unfold Layout.tupleLiteral
  split
  · next key =>
    have hopen : Reads (.code false) "(" [] (.code false) := reads_of_run fun _ => rfl
    have hcomma : Reads .closed ",)" [] (.code false) := reads_of_run fun _ => rfl
    exact (hopen.append (reads_asciiLiteral key)).append hcomma
  · exact Text.reads_bracketed (reads_of_run fun _ => rfl) (fun _ => reads_of_isOutside
      (fun _ => reads_of_run fun _ => rfl) (reads_of_run fun _ => rfl))
      fun key _ => ⟨.closed, trivial, reads_asciiLiteral key⟩

theorem reads_line {line : String} {found : List (List Nat)}
    (h : Reads (.code false) line found (.code false)) :
    Reads (.code false) (line ++ "\n") found (.code false) := by
  have hnewline : Reads (.code false) "\n" [] (.code false) := reads_of_run fun _ => rfl
  rw [← List.append_nil found]
  exact h.append hnewline

/-- The literals in the body of a URI function. -/
theorem literals?_uri (params : List Param) (template : String)
    (h : ∀ v ∈ values, IsPlain v.attr) (query : Option (List String)) :
    literals? (Layout.block (Layout.bodyLines (.uri params template values query))) =
      some ((template :: values.map (·.parameter) ++ query.getD []).map utf16) := by
  have hpath := reads_substitution template h
  rw [List.map_append, List.map_cons, List.map_map, Layout.block]
  cases query with
  | none =>
    have hreturn : Reads (.code false) "return " [] (.code false) := reads_of_run fun _ => rfl
    rw [Layout.bodyLines, List.map_singleton, String.join_cons, String.join_nil,
      String.append_empty, Option.getD_none, List.map_nil, List.append_nil]
    exact Text.literals?_of_reads (reads_line (hreturn.append hpath)) trivial
  | some keys =>
    have hassign : Reads (.code false) "path = " [] (.code false) := reads_of_run fun _ => rfl
    have hcall : Reads (.code false) "return runtime.append_query(path, query.encode()" []
      (.code false) := reads_of_run fun _ => rfl
    have hclose : Reads (.code false) ")" [] (.code false) := reads_of_run fun _ => rfl
    have hkeys : Reads (.code false)
        (if keys.isEmpty then ")" else ", exclude=" ++ Layout.tupleLiteral keys ++ ")")
        (keys.map utf16) (.code false) := by
      split
      · next hempty =>
        rw [List.isEmpty_iff.mp hempty]
        exact hclose
      · have hlabel : Reads (.code false) ", exclude=" [] (.code false) :=
          reads_of_run fun _ => rfl
        rw [← List.append_nil (keys.map utf16)]
        exact (hlabel.append (reads_tupleLiteral keys)).append hclose
    rw [Layout.bodyLines, List.map_cons, List.map_singleton, String.join_cons, String.join_cons,
      String.join_nil, String.append_empty, Option.getD_some]
    exact Text.literals?_of_reads ((reads_line (hassign.append hpath)).append
      (reads_line (hcall.append hkeys))) trivial

end

/-! ## Modules -/

/-- What the literals of a module made for an endpoint stand for. -/
structure Module.Denotes (e : Endpoint) (module : Module) : Prop where
  /-- A class has the wire names of its item, in order. -/
  wires : List.Forall₂ (fun (i : Item) (c : ClassDef) => c.fields.map (·.wire) = i.wireNames)
    e.items module.classes
  aliases : ∀ c ∈ module.classes, ∀ f ∈ c.fields, Layout.fieldLine f ∈ Layout.classLines c ∧
    (Text.Denotes (Layout.fieldLine f) [f.wire] ↔ IsBasic f.wire)
  uris : ∀ m ∈ e.methods, ∃ f, module.function? (Purpose.uri.functionName m.identifier) = some f ∧
    (Layout.bodyLines f.body).map ("    " ++ ·) <:+ Layout.functionLines f ∧
    (Text.Denotes (Layout.block (Layout.bodyLines f.body)) m.uriTexts ↔
      ∀ s ∈ m.uriTexts, IsBasic s)

section

variable {unit : String} {e : Endpoint} {module : Module}

theorem wires_itemClass {className : String → Gen String} {m : Method} {i i' : Item} {c : ClassDef}
    (hi : i.Resolves i') (h : itemClass className m i' = .ok c) :
    c.fields.map (·.wire) = i.wireNames := by
  obtain ⟨capability, -, hwf, rfl⟩ := hi
  cases i with
  | struct s => exact (wires_structClass hwf h :)
  | enum e => exact (wires_enumClass hwf h :)

theorem wires_ofEndpoint (hwf : e.WellFormed)
    (h : ofEndpoint unit (Schema.resolveEndpoint e) = .ok module) :
    List.Forall₂ (fun (i : Item) (c : ClassDef) => c.fields.map (·.wire) = i.wireNames)
      e.items module.classes := by
  obtain ⟨parts, hparts, h⟩ := bind_eq_ok_iff.mp h
  cases h
  have hitems : List.Forall₂ Item.Resolves e.items (Schema.resolveEndpoint e).items := by
    refine List.rel_flatMap (Schema.resolves_resolveEndpoint hwf) fun m m' hm => ?_
    obtain ⟨items, hitems, rfl⟩ := hm
    exact hitems
  have hmade : List.Forall₂ (fun i c => ∃ className m, itemClass className m i = .ok c)
      (Schema.resolveEndpoint e).items parts.1 := by
    rw [← Schema.map_item_entries, List.forall₂_map_left_iff]
    exact (classes_partsFrom hparts).imp fun x c hc => ⟨_, _, hc⟩
  refine forall₂_comp hitems hmade fun i i' c hi hc => ?_
  obtain ⟨className, m, hclass⟩ := hc
  exact wires_itemClass hi hclass

theorem denotes_of_ofEndpoint (hwf : e.WellFormed) (hspelled : ∀ m ∈ e.methods, m.Spelled)
    (h : ofEndpoint unit (Schema.resolveEndpoint e) = .ok module) : module.Denotes e := by
  have hnamed := wellNamed_of_ofEndpoint hwf hspelled h
  have hlegal : ∀ c ∈ module.classes, Name.IsLegal c.name := fun c hc =>
    hnamed.declared c.name (List.mem_append_left _ (List.mem_map_of_mem hc))
  have hrooted := rooted_of_ofEndpoint h hlegal
  refine ⟨wires_ofEndpoint hwf h, fun c hc f hf => ⟨(emits module).fields c hc f hf, ?_⟩,
    fun m hm => ?_⟩
  · have hattr : IsPlain f.attr :=
      Text.isPlain_of_wordChars (Name.wordChars_of_isIdent (hnamed.attributes c hc f hf).1.ident)
    have htype : IsPlain f.fieldType.text :=
      isPlain_text (hrooted.isWord_of_className? (List.mem_flatMap.mpr ⟨c, hc, hf⟩))
    rw [Text.denotes_iff_isBasic [f.wire] (literals?_fieldLine hattr htype),
      List.forall_mem_singleton]
  · obtain ⟨values, doc, -, hvalues, hfound, -⟩ := exists_function? hwf h hm
    have hall := mapM_eq_ok_iff.mp hvalues
    have hplain : ∀ v ∈ values, IsPlain v.attr := by
      intro v hv
      obtain ⟨p, hp, hpv⟩ := exists_of_mem_forall₂ hall hv
      rw [(pathValue_eq_ok hpv).2.1]
      have hname := Name.attributeName_spec ((hspelled m hm).parameters p hp)
      exact Text.isPlain_of_wordChars (Name.wordChars_of_isIdent hname.1.ident)
    have hparameters : m.path.parameters = values.map (·.parameter) := by
      rw [← List.map_id m.path.parameters]
      exact map_eq_of_forall₂ hall fun p v hv => (pathValue_eq_ok hv).1.symm
    refine ⟨_, hfound, ⟨_, rfl⟩, Text.denotes_iff_isBasic m.uriTexts ?_⟩
    rw [literals?_uri _ _ hplain, Schema.Method.uriTexts, hparameters]

end

end Client

/-- A text is written as a literal in double quotes on one line.  The literal stands for the text,
and the literals of a module for the wire names and paths of its endpoint, exactly where these lie
in the basic plane. -/
theorem literals_denote_basic_texts (s : String) :
    Text.IsLiteral (Client.Layout.stringLiteral s) (Text.utf16 s) ∧
      (Text.IsLiteral (Client.Layout.stringLiteral s) (Text.codePoints s) ↔ Text.IsBasic s) ∧
      ∀ (text unit : String) (c : Compilation), compile text unit = .ok c → c.diagnostics = [] →
        List.Forall₂ (fun e module => Client.Module.Denotes e module) c.built.schema.endpoints
          c.modules := by
  refine ⟨Text.isLiteral_asciiLiteral s, Text.isLiteral_codePoints_iff, ?_⟩
  intro text unit c h hok
  obtain ⟨hparsed, hbuilt, hschema, hmodules⟩ := modules_of_compile h hok
  refine forall₂_imp_of_mem hmodules fun e module he _ hmade => ?_
  have hwf := hschema.endpoints e he
  rw [hbuilt] at he
  refine Client.denotes_of_ofEndpoint hwf (fun m hm => ?_) hmade
  exact Schema.spelled_of_build hparsed he hm (hwf.methods m hm)

/-- A text with a quote, a backslash and a letter outside ASCII, and a source with a path
parameter. -/
theorem linked_literals_denote :
    Text.IsLiteral (Client.Layout.stringLiteral "\"\\é") (Text.codePoints "\"\\é") ∧
    ∃ c, compile Schema.linkedText "" = .ok c ∧ c.diagnostics = [] ∧
      List.Forall₂ (fun e module => Client.Module.Denotes e module) Schema.linkedSchema.endpoints
        c.modules := by
  obtain ⟨c, hc, hok, hschema⟩ := exists_linked_compilation
  obtain ⟨-, hliteral, hall⟩ := literals_denote_basic_texts "\"\\é"
  have hmodules := hall _ _ c hc hok
  rw [hschema] at hmodules
  exact ⟨hliteral.mpr (by decide), c, hc, hok, hmodules⟩

/-- A character beyond the basic plane is read back as the two halves of its surrogate pair. -/
theorem astral_literal_halved :
    Text.literals? (Client.Layout.stringLiteral "😀") = some [[0xd83d, 0xde00]] ∧
      Text.codePoints "😀" = [0x1f600] ∧
      ¬ Text.Denotes (Client.Layout.stringLiteral "😀") ["😀"] := by
  decide

end EndpointDsl
