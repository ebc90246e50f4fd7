import EndpointDsl.Proofs.Client.Names
import EndpointDsl.Proofs.Wire.Requests

/-!
A path template is read twice: once for the schema, with a fault for every brace out of place, and
once in the generated module, where a brace that opens no placeholder is text.

The two readings differ on a parameter whose name ends with a newline, which only the first one
takes.  No such parameter is left in a source that compiles, since a field has to fill it and fields
are named by identifiers.
-/

namespace EndpointDsl

/-- The text of a template by its segments: a parameter stands between braces. -/
def PathTemplate.written (path : PathTemplate) : String :=
  path.filled fun p => "\x7b" ++ p ++ "\x7d"

namespace PathTemplate

theorem flatMap_of_spells {segments : List Segment} {cs : List Char} (h : Spells segments cs) :
    segments.flatMap (fun s => (s.filled fun p => "\x7b" ++ p ++ "\x7d").toList) = cs := by
  induction h with
  | text hrun => rw [Wire.flatMap_literalSegment]
  | @group run name more segments hrun hname hmore ih =>
    rw [List.flatMap_append, Wire.flatMap_literalSegment, List.flatMap_cons, ih]
    simp [Segment.filled]

theorem written_of_parse {raw : String} {path : PathTemplate} (h : parse raw = .ok path) :
    path.written = raw := by
  obtain ⟨-, hspells⟩ := parse_eq_ok_iff.mp h
  rw [← String.toList_inj, written, Wire.toList_filled, flatMap_of_spells hspells]

end PathTemplate

namespace Wire

open Client (Module)
open Schema (Endpoint Method)

section

variable {module : Module} {values : List (String × Value)} {texts : List (String × String)}

/-- The text of the value that is given for a name, unless there is none or it is null. -/
def givenText? (module : Module) (values : List (String × Value)) (name : String) :
    Option String :=
  match lookup? name values with
  | none | some .null => none
  | some v => pathText? module v

theorem givenText?_eq_none {name : String} (h : name ∉ values.map (·.1)) :
    givenText? module values name = none := by
  rw [givenText?, lookup?_eq_none_iff.mpr h]

theorem givenText?_of_lookup? {name : String} {v : Value} (h : lookup? name values = some v)
    (hne : v ≠ .null) : givenText? module values name = pathText? module v := by
  rw [givenText?, h]
  cases v <;> first | rfl | exact absurd rfl hne

theorem givenText?_cons_of_ne {name key : String} {v : Value} (h : key ≠ name) :
    givenText? module ((key, v) :: values) name = givenText? module values name := by
  rw [givenText?, lookup?, if_neg h, givenText?]

/-- The texts of the values are found under the names of the values. -/
theorem lookup?_pathTexts (hkeys : (values.map (·.1)).Nodup)
    (h : pathTexts module values = .ok texts) (name : String) :
    lookup? name texts = givenText? module values name := by
  fun_induction pathTexts module values generalizing texts
  case case1 =>
    cases h
    rfl
  case case2 key rest ih =>
    rw [List.map_cons, List.nodup_cons] at hkeys
    rw [ih hkeys.2 h]
    by_cases hname : key = name
    · subst hname
      rw [givenText?_eq_none hkeys.1, givenText?, lookup?, if_pos rfl]
    · rw [givenText?_cons_of_ne hname]
  case case3 key v rest hne text htext ih =>
    rw [List.map_cons, List.nodup_cons] at hkeys
    obtain ⟨texts', hrest, hcons⟩ := bind_eq_ok_iff.mp h
    cases hcons
    by_cases hname : key = name
    · have hfound : lookup? name ((key, v) :: rest) = some v := by rw [lookup?, if_pos hname]
      rw [givenText?_of_lookup? hfound hne, htext, lookup?, if_pos hname]
    · rw [givenText?_cons_of_ne hname, lookup?, if_neg hname, ih hkeys.2 hrest]
  case case4 => cases h

end

/-- Every template that is read consists of its segments.  For every method of a source that
compiles, the generated module fills its template segment by segment, and misses the first
parameter without a value.  Values for all parameters take their places in percent-encoded form. -/
theorem template_readings_agree :
    (∀ (raw : String) (path : PathTemplate), PathTemplate.parse raw = .ok path →
      path.written = raw) ∧
    ∀ (text unit : String) (compiled : Compilation) (e : Endpoint) (m : Method),
      compile text unit = .ok compiled → compiled.diagnostics = [] →
      e ∈ compiled.built.schema.endpoints → m ∈ e.methods →
      (∀ value? : String → Option String, substitutePath m.path.raw value? =
        (m.path.segments.mapM (Segment.fill value?)).map String.join) ∧
      ∀ (module : Module) (values : List (String × Value)) (shown : String → String),
        (values.map (·.1)).Nodup →
        (∀ p ∈ m.path.parameters, ∃ v, lookup? p values = some v ∧ v ≠ .null ∧
          pathText? module v = some (shown p)) →
        substitutePath m.path.raw (givenText? module values) =
          .ok (m.path.filled fun p => Text.percentEncoded (shown p)) ∧
        ∀ texts, pathTexts module values = .ok texts → pathOf m.path.raw texts =
          .ok (m.path.filled fun p => Text.percentEncoded (shown p)) := by
  refine ⟨fun raw path h => PathTemplate.written_of_parse h, ?_⟩
  intro text unit compiled e m hcompiled hok he hm
  obtain ⟨hparsed, hbuilt, hschema, -⟩ := modules_of_compile hcompiled hok
  have hwf := (hschema.endpoints e he).methods m hm
  rw [hbuilt] at he
  have hspells := Schema.spells_of_build hparsed he hm
  have hidents : ∀ p ∈ m.path.parameters, isIdent p.toList = true :=
    fun p hp => Schema.isIdent_of_mem_parameters hparsed he hm hwf hp
  refine ⟨fun value? => substitutePath_eq_mapM hspells hidents, ?_⟩
  intro module values shown hkeys hvalues
  have hfilled : substitutePath m.path.raw (givenText? module values) =
      .ok (m.path.filled fun p => Text.percentEncoded (shown p)) := by
    refine substitutePath_eq_filled hspells fun p hp => ⟨hidents p hp, ?_⟩
    obtain ⟨v, hfound, hne, htext⟩ := hvalues p hp
    rw [givenText?_of_lookup? hfound hne, htext]
  refine ⟨hfilled, fun texts htexts => ?_⟩
  have hlookup : (lookup? · texts) = givenText? module values :=
    funext fun name => lookup?_pathTexts hkeys htexts name
  rw [pathOf, hlookup, hfilled]

/-- A value that looks like a placeholder is not one: it is filled in once. -/
theorem placeholder_value_kept : ∃ compiled path module,
    PathTemplate.parse "/\x7ba\x7d" = .ok path ∧ path.written = "/\x7ba\x7d" ∧
    compile sharedText "" = .ok compiled ∧ compiled.diagnostics = [] ∧
    module ∈ compiled.modules ∧
    substitutePath "/\x7ba\x7d" (givenText? module [("a", .text "\x7ba\x7d")]) =
      .ok "/%7Ba%7D" := by
  obtain ⟨compiled, module, hcompiled, hok, hendpoints, hmodules, -⟩ :=
    exists_sole_module shared_built sharedEndpoint_wellFormed
  obtain ⟨hwritten, hreadings⟩ := template_readings_agree
  obtain ⟨-, hfills⟩ := hreadings _ _ compiled sharedEndpoint sharedMethod hcompiled hok
    (hendpoints ▸ List.mem_singleton_self _) (List.mem_singleton_self _)
  obtain ⟨hfilled, -⟩ := hfills module [("a", .text "\x7ba\x7d")] (fun _ => "\x7ba\x7d")
    (List.nodup_singleton _) fun p hp => by
      obtain rfl := List.mem_singleton.mp hp
      exact ⟨_, rfl, nofun, rfl⟩
  have hparsed : PathTemplate.parse "/\x7ba\x7d" = .ok sharedMethod.path := by cbv
  refine ⟨compiled, sharedMethod.path, module, hparsed, hwritten _ _ hparsed, hcompiled, hok,
    hmodules ▸ List.mem_singleton_self _, hfilled.trans (congrArg Except.ok ?_)⟩
  decide

end Wire
end EndpointDsl
