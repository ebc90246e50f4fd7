import EndpointDsl.Proofs.Compilation
import EndpointDsl.Proofs.Schema.Reachability
import Mathlib

/-!
Whether the capabilities of an endpoint are closed under reference.

An item passes its directions on to every item without a role that it refers to, as far as it has
them when the passes settle.  An item that received nothing by then falls back to both directions,
and those are not passed on any more.  So the capabilities are closed exactly when no such item
refers to one that is used in a single direction.
-/

namespace EndpointDsl
namespace Schema

/-- The items without a role that an item refers to can do what the item can do. -/
def Endpoint.ClosedUnderReference (e : Endpoint) : Prop :=
  ∀ x ∈ e.entries, ∀ r ∈ x.item.references, ∀ y ∈ resolve? e.entries x.methodIndex r.name,
    y.item.inherits = true →
      (x.item.capability.encode = true → y.item.capability.encode = true) ∧
        (x.item.capability.decode = true → y.item.capability.decode = true)

instance (e : Endpoint) : Decidable e.ClosedUnderReference :=
  inferInstanceAs (Decidable (∀ x ∈ e.entries, ∀ r ∈ x.item.references,
    ∀ y ∈ resolve? e.entries x.methodIndex r.name, y.item.inherits = true →
      (x.item.capability.encode = true → y.item.capability.encode = true) ∧
        (x.item.capability.decode = true → y.item.capability.decode = true)))

/-- No item with a direction of its own reaches the item. -/
def Stranded (entries : List Entry) (i : Nat) : Prop := ∀ d, ¬ Receives entries d i

/-! ## The capability of every position -/

section

variable {entries : List Entry}

theorem getElem?_seedsFrom {referenced : List Nat} {position i : Nat} {x : Entry}
    (h : entries[i]? = some x) :
    (seedsFrom referenced position entries)[i]? = some (seed referenced (position + i) x.item) := by
  induction entries generalizing position i with
  | nil => cases h
  | cons first rest ih =>
    cases i with
    | zero =>
      cases h
      rfl
    | succ i =>
      rw [seedsFrom, List.getElem?_cons_succ, ih h, Nat.succ_add_eq_add_succ]

/-- An item with a role has a direction of its own, so that only items without one strand. -/
theorem Stranded.inherits {i : Nat} {x : Entry} (h : Stranded entries i)
    (hx : entries[i]? = some x) : x.item.inherits = true := by
  have hseed : (seeds entries)[i]? = some _ := getElem?_seedsFrom hx
  cases hrole : x.item.role? with
  | none => rw [Item.inherits, hrole]; rfl
  | some role =>
    rw [seed, hrole] at hseed
    rcases usable_roleCapability role with hencode | hdecode
    · exact absurd ⟨i, _, hseed, hencode, .refl⟩ (h .encode)
    · exact absurd ⟨i, _, hseed, hdecode, .refl⟩ (h .decode)

theorem stranded_iff {i : Nat} {c : Capability}
    (hc : (settledCapabilities entries)[i]? = some c) :
    Stranded entries i ↔ (c.encode || c.decode) = false := by
  have hencode : c.encode = true ↔ Receives entries .encode i :=
    allows_settled_iff (d := .encode) hc
  have hdecode : c.decode = true ↔ Receives entries .decode i :=
    allows_settled_iff (d := .decode) hc
  rw [Bool.or_eq_false_iff, ← Bool.not_eq_true, ← Bool.not_eq_true, hencode, hdecode]
  constructor
  · exact fun h => ⟨h .encode, h .decode⟩
  · rintro ⟨hnotEncode, hnotDecode⟩ (_ | _)
    · exact hnotEncode
    · exact hnotDecode

/-- An item has the directions that it receives, and a stranded item has both. -/
theorem allows_fallback_iff {i : Nat} {x : Entry} {c : Capability} (hx : entries[i]? = some x)
    (hc : (settledCapabilities entries)[i]? = some c) {d : Direction} :
    (fallback x c).allows d = true ↔ Receives entries d i ∨ Stranded entries i := by
  by_cases hstranded : Stranded entries i
  · have hnothing := (stranded_iff hc).mp hstranded
    rw [fallback, hstranded.inherits hx, hnothing]
    exact ⟨fun _ => Or.inr hstranded, fun _ => Capability.allows_both d⟩
  · have hsome : (c.encode || c.decode) = true :=
      Bool.of_not_eq_false (mt (stranded_iff hc).mpr hstranded)
    have hkept : fallback x c = c := by
      rw [fallback, hsome, Bool.not_true, Bool.and_false, if_neg Bool.false_ne_true]
    rw [hkept, allows_settled_iff hc]
    exact ⟨Or.inl, fun h => h.resolve_right hstranded⟩

end

theorem getElem?_capabilities {e : Endpoint} {i : Nat} {x : Entry} {c : Capability}
    (hx : e.entries[i]? = some x) (hc : (settledCapabilities e.entries)[i]? = some c) :
    (capabilities e).capabilities[i]? = some (fallback x c) := by
  show (e.entries.zipWith fallback (settledCapabilities e.entries))[i]? = _
  rw [List.getElem?_zipWith, hx, hc]

/-! ## The entries with their capabilities -/

theorem takeCapabilities_eq {items : List Item} {caps : List Capability}
    (h : items.length ≤ caps.length) :
    takeCapabilities items caps =
      (items.zipWith (fun i c => i.withCapability c) (caps.take items.length),
        caps.drop items.length) := by
  induction items generalizing caps with
  | nil => rfl
  | cons i rest ih =>
    cases caps with
    | nil => cases h
    | cons c caps =>
      rw [takeCapabilities, ih (Nat.le_of_succ_le_succ h)]
      rfl

/-- The entries of methods with capabilities are the entries of the methods, each with its own. -/
theorem entriesFrom_assignMethods {index : Nat} {methods : List Method} {caps : List Capability}
    (h : (methods.flatMap (·.items)).length ≤ caps.length) :
    (entriesFrom index (assignMethods methods caps)).map (fun x => (x.methodIndex, x.item)) =
      (entriesFrom index methods).zipWith
        (fun x c => (x.methodIndex, x.item.withCapability c)) caps := by
  induction methods generalizing index caps with
  | nil => rfl
  | cons m rest ih =>
    rw [List.flatMap_cons, List.length_append] at h
    have htaken := takeCapabilities_eq (show m.items.length ≤ caps.length by omega)
    have hrest := @ih (index + 1) (caps.drop m.items.length) (by rw [List.length_drop]; omega)
    have hlength : (methodEntries index m).length = (caps.take m.items.length).length := by
      rw [methodEntries, List.length_map, List.length_take]
      omega
    -- The capabilities are split where the items of the first method end.
    rw [assignMethods, htaken, entriesFrom, List.map_append, hrest, entriesFrom,
      ← List.take_append_drop m.items.length caps, List.zipWith_append hlength,
      List.take_append_drop, methodEntries, methodEntries, List.map_map, List.zipWith_map_left,
      List.map_zipWith]
    rfl

theorem entries_withCapabilities (e : Endpoint) :
    e.withCapabilities.entries.map (fun x => (x.methodIndex, x.item)) =
      e.entries.zipWith (fun x c => (x.methodIndex, x.item.withCapability c))
        (capabilities e).capabilities :=
  entriesFrom_assignMethods (Nat.le_of_eq (length_capabilities e).symm)

/-- What a position holds after the capabilities are assigned. -/
theorem getElem?_entries_withCapabilities {e : Endpoint} {i : Nat} {x : Entry} :
    e.withCapabilities.entries[i]? = some x → ∃ x₀ c, e.entries[i]? = some x₀ ∧
      (settledCapabilities e.entries)[i]? = some c ∧ x.methodIndex = x₀.methodIndex ∧
      x.item = x₀.item.withCapability (fallback x₀ c) := by
  intro hx
  have hkey : (e.withCapabilities.entries.map fun x => (x.methodIndex, x.item))[i]? =
      some (x.methodIndex, x.item) := by
    rw [List.getElem?_map, hx]
    rfl
  rw [entries_withCapabilities, List.getElem?_zipWith_eq_some] at hkey
  obtain ⟨x₀, cap, hx₀, hcap, heq⟩ := hkey
  have hi : i < (settledCapabilities e.entries).length := by
    rw [length_settledCapabilities]
    exact (List.getElem?_eq_some_iff.mp hx₀).1
  have hc := List.getElem?_eq_getElem hi
  rw [getElem?_capabilities hx₀ hc] at hcap
  cases hcap
  exact ⟨x₀, _, hx₀, hc, (congrArg Prod.fst heq).symm, (congrArg Prod.snd heq).symm⟩

/-! ## Capabilities change no name and no reference -/

@[simp] theorem Item.name_withCapability (i : Item) (c : Capability) :
    (i.withCapability c).name = i.name := by
  cases i <;> rfl

@[simp] theorem Item.references_withCapability (i : Item) (c : Capability) :
    (i.withCapability c).references = i.references := by
  cases i <;> rfl

@[simp] theorem Item.inherits_withCapability (i : Item) (c : Capability) :
    (i.withCapability c).inherits = i.inherits := by
  cases i <;> rfl

@[simp] theorem Item.role?_withCapability (i : Item) (c : Capability) :
    (i.withCapability c).role? = i.role? := by
  cases i <;> rfl

@[simp] theorem Item.capability_withCapability (i : Item) (c : Capability) :
    (i.withCapability c).capability = c := by
  cases i <;> rfl

/-- Looking up a name only looks at the names of the items and at their methods. -/
theorem resolveIndex?_congr {entries entries' : List Entry}
    (h : entries.map (fun x => (x.methodIndex, x.item.name)) =
      entries'.map fun x => (x.methodIndex, x.item.name)) (index : Nat) (name : String) :
    resolveIndex? entries index name = resolveIndex? entries' index name := by
  have hfind : ∀ p : Nat × String → Bool,
      entries.findIdx? (fun x => p (x.methodIndex, x.item.name)) =
        entries'.findIdx? fun x => p (x.methodIndex, x.item.name) := by
    intro p
    have hmap := congrArg (List.findIdx? p) h
    rw [List.findIdx?_map, List.findIdx?_map] at hmap
    exact hmap
  rw [resolveIndex?, resolveIndex?, hfind fun k => k.1 == index && k.2 == name,
    hfind fun k => k.2 == name]

theorem length_entries_withCapabilities (e : Endpoint) :
    e.withCapabilities.entries.length = e.entries.length := by
  have hlength := congrArg List.length (entries_withCapabilities e)
  rw [List.length_map, List.length_zipWith, length_capabilities, ← map_item_entries,
    List.length_map, Nat.min_self] at hlength
  exact hlength

theorem resolveIndex?_withCapabilities (e : Endpoint) (index : Nat) (name : String) :
    resolveIndex? e.withCapabilities.entries index name = resolveIndex? e.entries index name := by
  refine resolveIndex?_congr (List.ext_getElem? fun i => ?_) index name
  rw [List.getElem?_map, List.getElem?_map]
  cases hx : e.withCapabilities.entries[i]? with
  | some x =>
    obtain ⟨x₀, c, hx₀, -, hindex, hitem⟩ := getElem?_entries_withCapabilities hx
    rw [hx₀, Option.map_some, Option.map_some, hindex, hitem, Item.name_withCapability]
  | none =>
    have hi : e.entries.length ≤ i :=
      length_entries_withCapabilities e ▸ List.getElem?_eq_none_iff.mp hx
    rw [List.getElem?_eq_none_iff.mpr hi]

/-! ## Closure -/

/-- The item at a position has the directions that it receives, or both if it is stranded. -/
theorem allows_capability_iff {e : Endpoint} {i : Nat} {x : Entry}
    (hx : e.withCapabilities.entries[i]? = some x) {d : Direction} :
    x.item.capability.allows d = true ↔ Receives e.entries d i ∨ Stranded e.entries i := by
  obtain ⟨x₀, c, hx₀, hc, -, hitem⟩ := getElem?_entries_withCapabilities hx
  rw [hitem, Item.capability_withCapability, allows_fallback_iff hx₀ hc]

/-- A reference between the items with capabilities is a reference between the items. -/
theorem mem_edges_withCapabilities {e : Endpoint} {i j : Nat} {x y : Entry} {r : Reference}
    (hx : e.withCapabilities.entries[i]? = some x) (hr : r ∈ x.item.references)
    (hj : resolveIndex? e.withCapabilities.entries x.methodIndex r.name = some j)
    (hy : e.withCapabilities.entries[j]? = some y) (hinherits : y.item.inherits = true) :
    (i, j) ∈ edges e.entries := by
  obtain ⟨x₀, _, hx₀, -, hindex, hxitem⟩ := getElem?_entries_withCapabilities hx
  obtain ⟨y₀, _, hy₀, -, -, hyitem⟩ := getElem?_entries_withCapabilities hy
  rw [hxitem, Item.references_withCapability] at hr
  rw [resolveIndex?_withCapabilities, hindex] at hj
  rw [hyitem, Item.inherits_withCapability] at hinherits
  refine mem_edges_iff.mpr ⟨⟨x₀, hx₀, List.mem_filterMap.mpr ⟨r, hr, hj⟩⟩, ?_⟩
  rw [inheritsAt, hy₀]
  exact hinherits

theorem exists_reference_of_mem_edges {e : Endpoint} {i j : Nat} (h : (i, j) ∈ edges e.entries) :
    ∃ x y, e.withCapabilities.entries[i]? = some x ∧ e.withCapabilities.entries[j]? = some y ∧
      y.item.inherits = true ∧ ∃ r ∈ x.item.references,
        resolve? e.withCapabilities.entries x.methodIndex r.name = some y := by
  obtain ⟨hi, hj⟩ := lt_length_of_mem_edges h
  rw [← length_entries_withCapabilities] at hi hj
  have hx := List.getElem?_eq_getElem hi
  have hy := List.getElem?_eq_getElem hj
  obtain ⟨⟨x', hx', htarget⟩, hinherits⟩ := mem_edges_iff.mp h
  obtain ⟨r, hr, hresolved⟩ := List.mem_filterMap.mp htarget
  obtain ⟨x₀, _, hx₀, -, hindex, hxitem⟩ := getElem?_entries_withCapabilities hx
  obtain ⟨y₀, _, hy₀, -, -, hyitem⟩ := getElem?_entries_withCapabilities hy
  cases hx₀.symm.trans hx'
  rw [inheritsAt, hy₀] at hinherits
  refine ⟨_, _, hx, hy, ?_, r, ?_, ?_⟩
  · rw [hyitem, Item.inherits_withCapability]
    exact hinherits
  · rw [hxitem, Item.references_withCapability]
    exact hr
  · rw [resolve?, resolveIndex?_withCapabilities, hindex, hresolved, Option.bind_some]
    exact hy

/-- Closure in terms of what the two ends of a reference receive. -/
theorem closedUnderReference_iff_edges (e : Endpoint) :
    e.withCapabilities.ClosedUnderReference ↔
      ∀ i j, (i, j) ∈ edges e.entries → ∀ d, Receives e.entries d i ∨ Stranded e.entries i →
        Receives e.entries d j ∨ Stranded e.entries j := by
  constructor
  · intro hclosed i j hedge d hi
    obtain ⟨x, y, hx, hy, hinherits, r, hr, hresolved⟩ := exists_reference_of_mem_edges hedge
    have hpassed := hclosed x (List.mem_of_getElem? hx) r hr y hresolved hinherits
    rw [← allows_capability_iff hx] at hi
    rw [← allows_capability_iff hy]
    cases d with
    | encode => exact hpassed.1 hi
    | decode => exact hpassed.2 hi
  · intro hedges x hx r hr y hresolved hinherits
    obtain ⟨i, hi⟩ := List.getElem?_of_mem hx
    obtain ⟨j, hj, hy⟩ := Option.bind_eq_some_iff.mp hresolved
    have hedge := mem_edges_withCapabilities hi hr hj hy hinherits
    have hpassed : ∀ d, x.item.capability.allows d = true → y.item.capability.allows d = true := by
      intro d hd
      rw [allows_capability_iff hi] at hd
      rw [allows_capability_iff hy]
      exact hedges i j hedge d hd
    exact ⟨hpassed .encode, hpassed .decode⟩

theorem Receives.tail {entries : List Entry} {i j : Nat} {d : Direction}
    (hi : Receives entries d i) (h : (i, j) ∈ edges entries) : Receives entries d j := by
  obtain ⟨source, c, hc, hallows, hflows⟩ := hi
  exact ⟨source, c, hc, hallows, hflows.tail h⟩

/-- The capabilities of an endpoint are closed under reference exactly when no stranded item
refers to an item that receives one direction and not the other. -/
theorem closedUnderReference_iff (e : Endpoint) :
    e.withCapabilities.ClosedUnderReference ↔
      ∀ i j, (i, j) ∈ edges e.entries → Stranded e.entries i →
        (Receives e.entries .encode j ↔ Receives e.entries .decode j) := by
  rw [closedUnderReference_iff_edges]
  refine forall₃_congr fun i j hedge => ?_
  constructor
  · intro hpassed hi
    have hencode := hpassed .encode (Or.inr hi)
    have hdecode := hpassed .decode (Or.inr hi)
    by_cases hj : Stranded e.entries j
    · exact iff_of_false (hj .encode) (hj .decode)
    · exact iff_of_true (hencode.resolve_right hj) (hdecode.resolve_right hj)
  · intro heven d hi
    rcases hi with hreceived | hstranded
    · exact Or.inl (hreceived.tail hedge)
    · have heven := heven hstranded
      by_cases hj : Receives e.entries .encode j
      · refine Or.inl ?_
        cases d with
        | encode => exact hj
        | decode => exact heven.mp hj
      · refine Or.inr fun d' => ?_
        cases d' with
        | encode => exact hj
        | decode => exact mt heven.mpr hj

/-! ## A cycle beside a request -/

/-- The item `A` refers to itself and to `B`, and only the request, which is sent, refers to `B`. -/
def cycleText : String :=
  "[pub X:\x7bPUT \"/t\"=>\x7bstruct A\x7ba:?A,b:B\x7d struct B\x7b\x7d Request\x7bb:B\x7d\x7d\x7d]"

def cycleEndpoint : Endpoint :=
  { name := "X", isPublic := true, location := onFirstLine 0, methods := [
      { verb := .put, path := ⟨"/t", [.literal "/t"]⟩, location := onFirstLine 8, items := [
          .struct { name := "A", role := none, attributes := [], location := onFirstLine 19
                    fields := [
                      { name := "a", type := .optional (.reference "A"), attributes := []
                        location := onFirstLine 28 },
                      { name := "b", type := .reference "B", attributes := []
                        location := onFirstLine 33 }] },
          .struct { name := "B", role := none, attributes := [], location := onFirstLine 38
                    fields := [] },
          .struct { name := "Request", role := some .request, attributes := []
                    location := onFirstLine 49
                    fields := [
                      { name := "b", type := .reference "B", attributes := []
                        location := onFirstLine 57 }] }] }] }

/-- `A` can be received, for want of anything that it received itself, and `B` cannot. -/
theorem cycle_not_closed : (Tree.parse cycleText "").errors = [] ∧
    (build (Tree.parse cycleText "").source).errors = [] ∧
    (build (Tree.parse cycleText "").source).schema.endpoints = [cycleEndpoint] ∧
    ¬ cycleEndpoint.withCapabilities.ClosedUnderReference := by
  have hbuilt : (Tree.parse cycleText "").errors = [] ∧
      (build (Tree.parse cycleText "").source).errors = [] ∧
      (build (Tree.parse cycleText "").source).schema.endpoints = [cycleEndpoint] := by
    cbv
  exact ⟨hbuilt.1, hbuilt.2.1, hbuilt.2.2, by decide⟩

end Schema
end EndpointDsl
