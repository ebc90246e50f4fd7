import EndpointDsl.Proofs.Schema.Inheritance

/-!
The capability of an item, told without positions.

Capabilities are worked out for positions in a list.  When no item is declared twice in a method,
a position is as good as the item in it, and what an item is granted depends on no more than which
items there are and what their references lead to.
-/

namespace EndpointDsl
namespace Schema

/-! ## Declared items and what their references lead to -/

/-- An item with the position of the method that declares it. -/
def Entry.declared (x : Entry) : Nat × Item := (x.methodIndex, x.item)

def declaredFrom (index : Nat) : List Method → List (Nat × Item)
  | [] => []
  | m :: rest => m.items.map (index, ·) ++ declaredFrom (index + 1) rest

def Endpoint.declared (e : Endpoint) : List (Nat × Item) := declaredFrom 0 e.methods

theorem map_declared_entriesFrom (index : Nat) (methods : List Method) :
    (entriesFrom index methods).map Entry.declared = declaredFrom index methods := by
  induction methods generalizing index with
  | nil => rfl
  | cons m rest ih =>
    rw [entriesFrom, List.map_append, ih, methodEntries, List.map_map]
    rfl

theorem map_declared_entries (e : Endpoint) : e.entries.map Entry.declared = e.declared :=
  map_declared_entriesFrom 0 e.methods

/-- What a name refers to, seen from a method. -/
def target? (items : List (Nat × Item)) (index : Nat) (name : String) : Option (Nat × Item) :=
  (items.find? fun a => a.1 == index && a.2.name == name).or (items.find? fun a => a.2.name == name)

theorem resolve?_declared (entries : List Entry) (index : Nat) (name : String) :
    (resolve? entries index name).map Entry.declared =
      target? (entries.map Entry.declared) index name := by
  have hfind : ∀ p : Nat × Item → Bool, ((entries.findIdx? (p ∘ Entry.declared)).bind
      (entries[·]?)).map Entry.declared = (entries.map Entry.declared).find? p := by
    intro p
    rw [← List.find?_eq_bind_findIdx?_getElem?, List.find?_map]
  rw [target?, ← hfind, ← hfind, resolve?, resolveIndex?]
  -- The first look-up is for the method itself, the second one for the whole endpoint.
  generalize hhere :
    entries.findIdx? (fun x => x.methodIndex == index && x.item.name == name) = here
  cases here with
  | none =>
    rw [show entries.findIdx? ((fun a : Nat × Item => a.1 == index && a.2.name == name) ∘
      Entry.declared) = none from hhere]
    rfl
  | some i =>
    obtain ⟨hi, -⟩ := List.findIdx?_eq_some_iff_getElem.mp hhere
    rw [show entries.findIdx? ((fun a : Nat × Item => a.1 == index && a.2.name == name) ∘
      Entry.declared) = some i from hhere, Option.bind_some, List.getElem?_eq_getElem hi]
    rfl

/-- One declared item refers to another. -/
def RefersTo (items : List (Nat × Item)) (a b : Nat × Item) : Prop :=
  a ∈ items ∧ ∃ r ∈ a.2.references, target? items a.1 r.name = some b

/-- A reference along which capabilities flow. -/
def PassesTo (items : List (Nat × Item)) (a b : Nat × Item) : Prop :=
  RefersTo items a b ∧ b.2.inherits = true

/-- An item has a direction before anything has flowed: by its role, or for want of references. -/
def StartsWith (items : List (Nat × Item)) (d : Direction) (a : Nat × Item) : Prop :=
  match a.2.role? with
  | some role => (roleCapability role).allows d = true
  | none => ¬ ∃ b, RefersTo items b a

/-- An item that starts with a direction passes it on to the item. -/
def Gains (items : List (Nat × Item)) (d : Direction) (a : Nat × Item) : Prop :=
  ∃ source ∈ items, StartsWith items d source ∧ Relation.ReflTransGen (PassesTo items) source a

open Classical in
/-- What an item can do in the end.  One that gains nothing can do both. -/
noncomputable def granted (items : List (Nat × Item)) (a : Nat × Item) : Capability :=
  let allowed := fun d => decide (Gains items d a ∨ ∀ d', ¬ Gains items d' a)
  { encode := allowed .encode, decode := allowed .decode
    urlEncoded := a.2.role? == some .query }

theorem allows_granted_iff {items : List (Nat × Item)} {a : Nat × Item} {d : Direction} :
    (granted items a).allows d = true ↔ Gains items d a ∨ ∀ d', ¬ Gains items d' a := by
  cases d <;> simp only [granted, Capability.allows, decide_eq_true_eq]

/-! ## Positions and items -/

section

variable {entries : List Entry} {i j : Nat} {a b : Nat × Item}

/-- The item at a position. -/
def Holds (entries : List Entry) (i : Nat) (a : Nat × Item) : Prop :=
  (entries.map Entry.declared)[i]? = some a

theorem holds_iff : Holds entries i a ↔ ∃ x, entries[i]? = some x ∧ x.declared = a := by
  rw [Holds, List.getElem?_map, Option.map_eq_some_iff]

theorem Holds.mem (h : Holds entries i a) : a ∈ entries.map Entry.declared := List.mem_of_getElem? h

theorem exists_holds (h : a ∈ entries.map Entry.declared) : ∃ i, Holds entries i a :=
  List.getElem?_of_mem h

theorem exists_holds_of_lt (h : i < entries.length) : ∃ a, Holds entries i a :=
  ⟨_, holds_iff.mpr ⟨_, List.getElem?_eq_getElem h, rfl⟩⟩

theorem Holds.eq (h : Holds entries i a) (h' : Holds entries i b) : a = b :=
  Option.some.inj (h.symm.trans h')

theorem Holds.position_eq (hnodup : (entries.map Entry.declared).Nodup) (h : Holds entries i a)
    (h' : Holds entries j a) : i = j :=
  (List.getElem?_inj (List.getElem?_eq_some_iff.mp h).1 hnodup).mp (h.trans h'.symm)

theorem holds_of_resolveIndex? {index : Nat} {name : String}
    (h : resolveIndex? entries index name = some j) :
    ∃ b, Holds entries j b ∧ target? (entries.map Entry.declared) index name = some b := by
  obtain ⟨y, hy⟩ : ∃ y, entries[j]? = some y :=
    ⟨_, List.getElem?_eq_getElem (lt_length_of_resolveIndex? h)⟩
  refine ⟨y.declared, holds_iff.mpr ⟨y, hy, rfl⟩, ?_⟩
  rw [← resolve?_declared, resolve?, h, Option.bind_some, hy, Option.map_some]

/-- The references between positions are those between the items there. -/
theorem mem_allEdges_iff_refersTo (hnodup : (entries.map Entry.declared).Nodup)
    (ha : Holds entries i a) (hb : Holds entries j b) :
    (i, j) ∈ allEdges entries ↔ RefersTo (entries.map Entry.declared) a b := by
  obtain ⟨x, hx, rfl⟩ := holds_iff.mp ha
  rw [mem_allEdges_iff]
  constructor
  · rintro ⟨x', hx', hj⟩
    cases hx.symm.trans hx'
    obtain ⟨r, hr, hresolved⟩ := List.mem_filterMap.mp hj
    obtain ⟨b', hb', htarget⟩ := holds_of_resolveIndex? hresolved
    rw [hb.eq hb']
    exact ⟨ha.mem, r, hr, htarget⟩
  · rintro ⟨-, r, hr, htarget⟩
    refine ⟨x, hx, List.mem_filterMap.mpr ⟨r, hr, ?_⟩⟩
    rw [← resolve?_declared, Option.map_eq_some_iff] at htarget
    obtain ⟨y, hy, rfl⟩ := htarget
    obtain ⟨k, hk, hy⟩ := Option.bind_eq_some_iff.mp hy
    rw [Holds.position_eq hnodup hb (holds_iff.mpr ⟨y, hy, rfl⟩)]
    exact hk

theorem mem_edges_iff_passesTo (hnodup : (entries.map Entry.declared).Nodup)
    (ha : Holds entries i a) (hb : Holds entries j b) :
    (i, j) ∈ edges entries ↔ PassesTo (entries.map Entry.declared) a b := by
  rw [edges, List.mem_filter, mem_allEdges_iff_refersTo hnodup ha hb, PassesTo]
  obtain ⟨y, hy, rfl⟩ := holds_iff.mp hb
  refine and_congr_right fun _ => ?_
  show inheritsAt entries j = true ↔ _
  rw [inheritsAt, hy]
  rfl

theorem flows_iff (hnodup : (entries.map Entry.declared).Nodup) (ha : Holds entries i a)
    (hb : Holds entries j b) :
    Flows entries i j ↔ Relation.ReflTransGen (PassesTo (entries.map Entry.declared)) a b := by
  constructor
  · intro hflows
    induction hflows generalizing b with
    | refl => rw [ha.eq hb]
    | tail _ hedge ih =>
      obtain ⟨c, hc⟩ := exists_holds_of_lt (lt_length_of_mem_edges hedge).1
      exact (ih hc).tail ((mem_edges_iff_passesTo hnodup hc hb).mp hedge)
  · intro hpasses
    induction hpasses generalizing j with
    | refl => rw [ha.position_eq hnodup hb]; exact .refl
    | tail _ hpass ih =>
      obtain ⟨k, hk⟩ := exists_holds hpass.1.1
      exact (ih hk).tail ((mem_edges_iff_passesTo hnodup hk hb).mpr hpass)

/-- The capability that a position starts with. -/
theorem allows_seed_iff (hnodup : (entries.map Entry.declared).Nodup) (ha : Holds entries i a)
    {c : Capability} (hc : (seeds entries)[i]? = some c) {d : Direction} :
    c.allows d = true ↔ StartsWith (entries.map Entry.declared) d a := by
  obtain ⟨x, hx, rfl⟩ := holds_iff.mp ha
  have hseed : (seeds entries)[i]? = some _ := getElem?_seedsFrom hx
  rw [Nat.zero_add, hc, Option.some.injEq] at hseed
  rw [hseed, seed, StartsWith]
  show _ ↔ match x.item.role? with
    | some role => _
    | none => _
  cases hrole : x.item.role? with
  | some role => rfl
  | none =>
    have hreferenced : i ∈ (allEdges entries).map (·.2) ↔
        ∃ b, RefersTo (entries.map Entry.declared) b x.declared := by
      rw [List.mem_map]
      constructor
      · rintro ⟨⟨k, j⟩, hedge, rfl⟩
        obtain ⟨y, hy, -⟩ := mem_allEdges_iff.mp hedge
        have hb : Holds entries k y.declared := holds_iff.mpr ⟨y, hy, rfl⟩
        exact ⟨_, (mem_allEdges_iff_refersTo hnodup hb ha).mp hedge⟩
      · rintro ⟨b, hrefers⟩
        obtain ⟨k, hk⟩ := exists_holds hrefers.1
        exact ⟨(k, i), (mem_allEdges_iff_refersTo hnodup hk ha).mpr hrefers, rfl⟩
    rw [← List.contains_iff_mem] at hreferenced
    by_cases hcontains : ((allEdges entries).map (·.2)).contains i = true
    · simp only [if_pos hcontains]
      exact iff_of_false (by cases d <;> exact Bool.false_ne_true)
        (not_not.mpr (hreferenced.mp hcontains))
    · simp only [if_neg hcontains]
      exact iff_of_true (Capability.allows_both d) (mt hreferenced.mpr hcontains)

theorem receives_iff (hnodup : (entries.map Entry.declared).Nodup) (ha : Holds entries i a)
    {d : Direction} : Receives entries d i ↔ Gains (entries.map Entry.declared) d a := by
  constructor
  · rintro ⟨k, c, hc, hallows, hflows⟩
    have hlength : (seeds entries).length = entries.length := length_seeds
    have hk : k < entries.length := hlength ▸ (List.getElem?_eq_some_iff.mp hc).1
    obtain ⟨b, hb⟩ := exists_holds_of_lt hk
    exact ⟨b, hb.mem, (allows_seed_iff hnodup hb hc).mp hallows, (flows_iff hnodup hb ha).mp hflows⟩
  · rintro ⟨b, hb, hstarts, hpasses⟩
    obtain ⟨k, hk⟩ := exists_holds hb
    obtain ⟨x, hx, -⟩ := holds_iff.mp hk
    have hc : (seeds entries)[k]? = some _ := getElem?_seedsFrom hx
    exact ⟨k, _, hc, (allows_seed_iff hnodup hk hc).mpr hstarts,
      (flows_iff hnodup hk ha).mpr hpasses⟩

end

/-! ## The capabilities of an endpoint -/

/-- Only a query is URL-encoded. -/
theorem urlEncoded_fallback {entries : List Entry} {i : Nat} {x : Entry} {c : Capability}
    (hx : entries[i]? = some x) (hc : (settledCapabilities entries)[i]? = some c) :
    (fallback x c).urlEncoded = (x.item.role? == some .query) := by
  have hseed : (seeds entries)[i]? = some _ := getElem?_seedsFrom hx
  have hgrows : c.urlEncoded = (seed ((allEdges entries).map (·.2)) (0 + i) x.item).urlEncoded := by
    obtain ⟨hi, rfl⟩ := List.getElem?_eq_some_iff.mp hc
    obtain ⟨hi', hseed⟩ := List.getElem?_eq_some_iff.mp hseed
    rw [← hseed]
    exact ((List.forall₂_iff_get.mp allGrow_settledCapabilities).2 i hi' hi).urlEncoded
  rw [fallback, seed] at *
  cases hrole : x.item.role? with
  | some role =>
    rw [Item.inherits, hrole, Option.isNone_some, Bool.false_and, if_neg Bool.false_ne_true, hgrows,
      hrole]
    cases role <;> rfl
  | none =>
    have hplain : c.urlEncoded = false := by
      rw [hgrows, hrole]
      show (if _ then _ else _ : Capability).urlEncoded = false
      split <;> rfl
    split
    · rfl
    · exact hplain

theorem fallback_eq_granted {entries : List Entry} {i : Nat} {x : Entry} {c : Capability}
    (hnodup : (entries.map Entry.declared).Nodup) (hx : entries[i]? = some x)
    (hc : (settledCapabilities entries)[i]? = some c) :
    fallback x c = granted (entries.map Entry.declared) x.declared := by
  have ha : Holds entries i x.declared := holds_iff.mpr ⟨x, hx, rfl⟩
  refine Capability.eq_of_allows (fun d => ?_) (urlEncoded_fallback hx hc)
  simp only [allows_granted_iff, allows_fallback_iff hx hc, Stranded, receives_iff hnodup ha]

/-- The capabilities of an endpoint are what its items are granted. -/
theorem capabilities_eq {e : Endpoint} (hnodup : e.declared.Nodup) :
    (capabilities e).capabilities = e.declared.map (granted e.declared) := by
  rw [← map_declared_entries] at hnodup ⊢
  refine List.ext_getElem? fun i => ?_
  rw [List.getElem?_map, List.getElem?_map]
  cases hx : e.entries[i]? with
  | none =>
    have hlength := (usable_capabilities e).length_eq
    rw [Option.map_none, Option.map_none, List.getElem?_eq_none_iff, ← hlength]
    exact List.getElem?_eq_none_iff.mp hx
  | some x =>
    have hi : i < (settledCapabilities e.entries).length := by
      rw [length_settledCapabilities]
      exact (List.getElem?_eq_some_iff.mp hx).1
    have hc := List.getElem?_eq_getElem hi
    rw [getElem?_capabilities hx hc, fallback_eq_granted hnodup hx hc]
    rfl

/-- Methods with every item replaced by what is made of it. -/
def mapItemsFrom (f : Nat × Item → Item) (index : Nat) : List Method → List Method
  | [] => []
  | m :: rest =>
    { m with items := m.items.map fun i => f (index, i) } :: mapItemsFrom f (index + 1) rest

theorem assignMethods_eq (cap : Nat × Item → Capability) (index : Nat) (methods : List Method) :
    assignMethods methods ((declaredFrom index methods).map cap) =
      mapItemsFrom (fun a => a.2.withCapability (cap a)) index methods := by
  induction methods generalizing index with
  | nil => rfl
  | cons m rest ih =>
    have hlength : m.items.length ≤ ((declaredFrom index (m :: rest)).map cap).length := by
      simp [declaredFrom]
    rw [assignMethods, takeCapabilities_eq hlength, declaredFrom, List.map_append, List.map_map,
      List.take_left' (List.length_map _), List.drop_left' (List.length_map _), mapItemsFrom, ← ih,
      List.zipWith_map_right, List.zipWith_self]
    rfl

theorem withCapabilities_eq {e : Endpoint} (hnodup : e.declared.Nodup) :
    e.withCapabilities =
      { e with
        methods :=
          mapItemsFrom (fun a => a.2.withCapability (granted e.declared a)) 0 e.methods } := by
  rw [Endpoint.withCapabilities, capabilities_eq hnodup, Endpoint.declared, assignMethods_eq]

end Schema
end EndpointDsl
