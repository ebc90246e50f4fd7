import EndpointDsl.Client.Generate
import EndpointDsl.Proofs.Schema.RelocatedRules

/-!
The module of an endpoint whose places are moved.

No declaration, documentation text or name of a module comes from a place, so an endpoint has the
same module before and after a move.
-/

namespace EndpointDsl
namespace Client

open Schema (Endpoint Entry Item Method Struct Enum Field Variant findRole?_relocate)

variable {f : Location → Location}

/-! ## Classes -/

theorem classFor_relocate (endpoint : String) (entries : List Entry) (methodIndex : Nat) :
    classFor endpoint (entries.map (·.relocate f)) methodIndex =
      classFor endpoint entries methodIndex := by
  funext name
  have hresolve : Schema.resolve? (entries.map (·.relocate f)) methodIndex name =
      (Schema.resolve? entries methodIndex name).map (·.relocate f) := by
    simp only [Schema.resolve?, Schema.resolveIndex?_relocate, List.getElem?_map]
    cases Schema.resolveIndex? entries methodIndex name <;> rfl
  rw [classFor, classFor, hresolve]
  cases Schema.resolve? entries methodIndex name with
  | none => rfl
  | some x =>
    show Except.ok (x.method.className (x.item.relocate f).name) = _
    rw [Item.name_relocate]

theorem errorAttr?_relocate (s : Struct) : errorAttr? (s.relocate f) = errorAttr? s := by
  have hfields : (s.relocate f).fields = s.fields.map (·.relocate f) := rfl
  rw [errorAttr?, errorAttr?, hfields, ← List.map_reverse, List.find?_map, Option.map_map]
  rfl

theorem docs_struct_relocate (m : Method) (s : Struct) :
    Docs.struct (m.relocate f) (s.relocate f) = Docs.struct m s := by
  have hfields : (s.relocate f).fields = s.fields.map (·.relocate f) := rfl
  simp only [Docs.struct, hfields, List.isEmpty_map, List.map_map]
  rfl

theorem structClass_relocate (className : String → Gen String) (m : Method) (s : Struct) :
    structClass className (m.relocate f) (s.relocate f) = structClass className m s := by
  have hfields : (s.relocate f).fields = s.fields.map (·.relocate f) := rfl
  have hbuilder : (s.relocate f).isBuilder = s.isBuilder := by
    simp only [Struct.isBuilder, Struct.relocate, List.any_map]
    rfl
  simp only [structClass, docs_struct_relocate, errorAttr?_relocate, hbuilder, hfields,
    List.mapM_map, List.filter_map, List.map_map]
  rfl

theorem enumClass_relocate (className : String → Gen String) (m : Method) (e : Enum) :
    enumClass className (m.relocate f) (e.relocate f) = enumClass className m e := by
  have hvariants : (e.relocate f).variants = e.variants.map (·.relocate f) := rfl
  have hdoc : Docs.enum (m.relocate f) (e.relocate f) = Docs.enum m e := by
    simp only [Docs.enum, hvariants, List.map_map]
    rfl
  simp only [enumClass, hdoc, hvariants, List.isEmpty_map, List.mapM_map, List.filter_map,
    List.map_map]
  rfl

theorem itemClass_relocate (className : String → Gen String) (m : Method) (i : Item) :
    itemClass className (m.relocate f) (i.relocate f) = itemClass className m i := by
  cases i with
  | struct s => exact structClass_relocate className m s
  | enum e => exact enumClass_relocate className m e

/-! ## Functions -/

theorem coveringRole?_relocate (m : Method) (parameter : String) :
    coveringRole? (m.relocate f) parameter = coveringRole? m parameter := by
  refine congrArg (Schema.pathRoles.find? ·) (funext fun role => ?_)
  rw [findRole?_relocate]
  cases m.findRole? (some role) with
  | none => rfl
  | some s =>
    show ((s.fields.map (·.relocate f)).any _) = _
    rw [List.any_map]
    rfl

theorem pathValue_relocate (m : Method) (parameter : String) :
    pathValue (m.relocate f) parameter = pathValue m parameter := by
  rw [pathValue, pathValue, coveringRole?_relocate]
  rfl

theorem paramsFor_relocate (m : Method) (roles : List Role) :
    paramsFor (m.relocate f) roles = paramsFor m roles := by
  refine List.filterMap_congr fun role _ => ?_
  rw [findRole?_relocate, Option.map_map]
  rfl

theorem excludedKeys_relocate (m : Method) (s : Struct) :
    excludedKeys (m.relocate f) (s.relocate f) = excludedKeys m s := by
  have hfields : (s.relocate f).fields = s.fields.map (·.relocate f) := rfl
  rw [excludedKeys, excludedKeys, hfields, List.filter_map, List.map_map]
  rfl

theorem docs_response_relocate (m : Method) (s : Struct) :
    Docs.response (m.relocate f) (s.relocate f) = Docs.response m s := by
  have herror : (s.relocate f).errorField? = s.errorField?.map (·.relocate f) := by
    rw [Struct.errorField?, Struct.relocate, List.find?_map]
    rfl
  rw [Docs.response, Docs.response, herror]
  cases s.errorField? <;> rfl

theorem responseFunction_relocate (m : Method) :
    responseFunction (m.relocate f) = responseFunction m := by
  rw [responseFunction, responseFunction, findRole?_relocate, findRole?_relocate]
  cases m.findRole? (some .response) with
  | some s => exact congrArg (fun doc => [({ doc, .. } : FunctionDef)]) (docs_response_relocate m s)
  | none =>
    cases m.findRole? (some .reqRes) with
    | some s =>
      exact congrArg (fun doc => [({ doc, .. } : FunctionDef)]) (docs_response_relocate m s)
    | none => rfl

theorem headersFunction_relocate (m : Method) :
    headersFunction (m.relocate f) = headersFunction m := by
  rw [headersFunction, headersFunction, findRole?_relocate]
  cases m.findRole? (some .header) <;> rfl

theorem methodFunctions_relocate (m : Method) :
    methodFunctions (m.relocate f) = methodFunctions m := by
  have hpath : (m.relocate f).path = m.path := rfl
  have hvalues : pathValue (m.relocate f) = pathValue m := funext (pathValue_relocate m)
  have hkeys : ((m.findRole? (some .query)).map (·.relocate f)).map (excludedKeys (m.relocate f)) =
      (m.findRole? (some .query)).map (excludedKeys m) := by
    rw [Option.map_map]
    exact congrArg (Option.map · _) (funext (excludedKeys_relocate m))
  simp only [methodFunctions, hpath, hvalues, paramsFor_relocate, responseFunction_relocate,
    headersFunction_relocate, findRole?_relocate, hkeys, Option.isSome_map]
  rfl

/-! ## Modules -/

theorem partsFrom_relocate (endpoint : String) (entries : List Entry) (index : Nat)
    (ms : List Method) :
    partsFrom endpoint (entries.map (·.relocate f)) index (ms.map (·.relocate f)) =
      partsFrom endpoint entries index ms := by
  induction ms generalizing index with
  | nil => rfl
  | cons m ms ih =>
    have hitems : (m.relocate f).items = m.items.map (·.relocate f) := rfl
    have hparts : methodParts endpoint (entries.map (·.relocate f)) index (m.relocate f) =
        methodParts endpoint entries index m := by
      simp only [methodParts, classFor_relocate, methodFunctions_relocate, hitems, List.mapM_map,
        Function.comp_def, itemClass_relocate]
    rw [List.map_cons, partsFrom, partsFrom, hparts, ih]

theorem ofEndpoint_relocate (unit : String) (e : Endpoint) :
    ofEndpoint unit (e.relocate f) = ofEndpoint unit e := by
  have hmethods : (e.relocate f).methods = e.methods.map (·.relocate f) := rfl
  have hdoc : Docs.module_ (e.relocate f) = Docs.module_ e := by
    simp only [Docs.module_, hmethods, List.isEmpty_map, List.map_map]
    rfl
  rw [ofEndpoint, ofEndpoint, Schema.entries_relocate, hmethods, hdoc]
  show (partsFrom e.name _ 0 _ >>= _) = _
  rw [partsFrom_relocate]
  rfl

end Client
end EndpointDsl
