import EndpointDsl.Proofs.Client.Generation
import EndpointDsl.Proofs.Text.Lines

/-!
Every documentation text of a generated module can be written as a documentation string.

A text of nothing but newlines has no first line to write.  The texts of a module all start with a
fixed word, so none of them is such a text, whatever the names and paths that follow.
-/

namespace EndpointDsl
namespace Client
namespace Docs

/-- The text starts with a character of its first line. -/
def startsLine (s : String) : Bool := s.toList.head?.any (· != '\n')

theorem startsLine_append {a b : String} (h : startsLine a = true) :
    startsLine (a ++ b) = true := by
  unfold startsLine at h ⊢
  rw [String.toList_append]
  cases ha : a.toList with
  | nil => rw [ha] at h; cases h
  | cons c cs =>
    rw [ha] at h
    exact h

theorem startsLine_joinLines {first : String} {rest : List String} (h : startsLine first = true) :
    startsLine (joinLines (first :: rest)) = true := by
  cases rest with
  | nil => rwa [joinLines, String.intercalate_singleton]
  | cons second others =>
    rw [joinLines, String.intercalate_cons_cons, String.append_assoc]
    exact startsLine_append h

theorem literal?_isSome {indent : Nat} {text : String} (h : startsLine text = true) :
    (literal? indent text).isSome = true := by
  cases htext : text.toList with
  | nil => rw [startsLine, htext] at h; cases h
  | cons c cs =>
    have hc : (c == '\n') = false := by
      rw [startsLine, htext] at h
      simpa using h
    have hlines : Text.lines (Text.trimNewlines text) ≠ [] := by
      rw [Text.lines, Text.trimNewlines, String.toList_ofList, htext]
      have htrim : Text.trimChars (· == '\n') (c :: cs) ≠ [] := Text.trimChars_ne_nil hc
      intro hempty
      exact Text.linesFrom_ne_nil _ _ (Or.inr htrim) (List.map_eq_nil_iff.mp hempty)
    unfold literal?
    split
    · next hempty => exact absurd hempty hlines
    · rfl
    · rfl

/-! ## The texts of a module -/

open Schema (Endpoint Item Method Struct Enum)

theorem startsLine_module (e : Endpoint) : startsLine (module_ e) = true := by
  refine startsLine_joinLines ?_
  cases e.isPublic with
  | true => exact startsLine_append (startsLine_append (startsLine_append (by decide)))
  | false => exact startsLine_append (startsLine_append (startsLine_append (by decide)))

theorem startsLine_struct (m : Method) (s : Struct) : startsLine (struct m s) = true := by
  refine startsLine_joinLines (startsLine_append (startsLine_append (startsLine_append ?_)))
  cases s.role with
  | none => decide
  | some role => cases role <;> decide

theorem startsLine_enum (m : Method) (e : Enum) : startsLine (enum m e) = true :=
  startsLine_joinLines (startsLine_append (startsLine_append (by decide)))

theorem startsLine_uri (m : Method) (hasQuery : Bool) : startsLine (uri m hasQuery) = true :=
  startsLine_joinLines (startsLine_append (startsLine_append (by decide)))

theorem startsLine_request (m : Method) : startsLine (request m) = true :=
  startsLine_append (startsLine_append (by decide))

theorem startsLine_response (m : Method) (s : Struct) : startsLine (response m s) = true := by
  unfold response
  have hsummary : startsLine s!"Decode the body of a {route m} response." = true :=
    startsLine_append (startsLine_append (by decide))
  cases s.errorField? with
  | none => exact hsummary
  | some f => exact startsLine_joinLines hsummary

theorem startsLine_headers (m : Method) : startsLine (headers m) = true :=
  startsLine_append (startsLine_append (by decide))

end Docs

open Docs

/-- The documentation texts of a module, of its classes and of its functions. -/
def Module.docs (m : Module) : List String :=
  m.doc :: m.classes.map (·.doc) ++ m.functions.map (·.doc)

theorem startsLine_itemClass {className : String → Gen String} {m : Schema.Method} {i : Schema.Item}
    {c : ClassDef} (h : itemClass className m i = .ok c) : startsLine c.doc = true := by
  cases i with
  | struct s =>
    obtain ⟨base, fields, -, -, rfl⟩ := structClass_eq_ok_iff.mp h
    exact startsLine_struct m s
  | enum e =>
    obtain ⟨fields, -, -, -, rfl⟩ := enumClass_eq_ok_iff.mp h
    dsimp only
    exact startsLine_enum m e

theorem startsLine_methodFunctions {m : Schema.Method} {functions : List FunctionDef}
    {f : FunctionDef}
    (h : methodFunctions m = .ok functions) (hf : f ∈ functions) : startsLine f.doc = true := by
  obtain ⟨values, -, hmade⟩ := functionOf_of_mem h hf
  cases hmade with
  | uri => exact startsLine_uri m _
  | request => exact startsLine_request m
  | response => exact startsLine_response m _
  | headers => exact startsLine_headers m

/-- No generated text is left without a first line. -/
theorem literal?_isSome_of_mem_docs {unit : String} {e : Schema.Endpoint} {m : Module}
    {text : String}
    (h : ofEndpoint unit e = .ok m) (htext : text ∈ m.docs) (indent : Nat) :
    (literal? indent text).isSome = true := by
  obtain ⟨parts, hparts, h⟩ := bind_eq_ok_iff.mp h
  cases h
  refine literal?_isSome ?_
  rw [Module.docs, List.mem_append, List.mem_cons] at htext
  rcases htext with (rfl | hclass) | hfunction
  · exact startsLine_module e
  · obtain ⟨c, hc, rfl⟩ := List.mem_map.mp hclass
    obtain ⟨x, -, hx⟩ := exists_of_mem_forall₂ (classes_partsFrom hparts) hc
    exact startsLine_itemClass hx
  · obtain ⟨f, hf, rfl⟩ := List.mem_map.mp hfunction
    obtain ⟨m, -, functions, hfunctions, hmem⟩ := exists_of_mem_functions hparts hf
    exact startsLine_methodFunctions hfunctions hmem

end Client
end EndpointDsl
