import EndpointDsl.Proofs.Schema.Granted

/-!
The capability of every item, as a question about the graph of references.

The graph has the items of an endpoint as its nodes, by position, since two items may share a name,
and a reference leads to the item that the scope finds for it.  Capabilities start at the items with
a role and at the items that nothing refers to, and they travel to items without a role.  The passes
over the references stop by themselves, and what they leave is what travels along the graph.
-/

namespace EndpointDsl
namespace Schema

/-! ## The graph -/

section

variable (entries : List Entry)

/-- A reference of the item at one position resolves to the item at another. -/
def RefersAt (i j : Nat) : Prop :=
  ∃ x, entries[i]? = some x ∧
    ∃ r ∈ x.item.references, resolveIndex? entries x.methodIndex r.name = some j

/-- The item at the position has no role. -/
def RolelessAt (i : Nat) : Prop := ∃ x, entries[i]? = some x ∧ x.item.role? = none

/-- There is a path of references, all to items without a role. -/
def Reaches : Nat → Nat → Prop :=
  Relation.TransGen fun i j => RefersAt entries i j ∧ RolelessAt entries j

/-- The item has no role, and nothing refers to it. -/
def Unreferenced (i : Nat) : Prop := RolelessAt entries i ∧ ∀ k, ¬ RefersAt entries k i

/-- The positions that capabilities start from. -/
inductive Seed : Nat → Capability → Prop
  | role {i : Nat} {x : Entry} {role : Role} (hx : entries[i]? = some x)
      (hrole : x.item.role? = some role) : Seed i (roleCapability role)
  | unreferenced {i : Nat} (h : Unreferenced entries i) : Seed i .both

/-- An item with a role has what the role gives.  Any other item has the directions of the seeds
that reach it, and both if it is a seed itself or no seed reaches it. -/
structure Deserves (i : Nat) (x : Entry) (c : Capability) : Prop where
  role : ∀ role, x.item.role? = some role → c = roleCapability role
  directions : x.item.role? = none → ∀ d, c.allows d = true ↔
    Unreferenced entries i ∨
      (∃ k s, Seed entries k s ∧ s.allows d = true ∧ Reaches entries k i) ∨
      ¬ ∃ k s, Seed entries k s ∧ Reaches entries k i
  plain : x.item.role? = none → c.urlEncoded = false

end

/-- Passes are made until one changes nothing, however many it takes. -/
inductive Settles (edges : List (Nat × Nat)) : List Capability → List Capability → Nat → Prop
  | stable {caps : List Capability} (h : pass edges caps = caps) : Settles edges caps caps 1
  | again {caps final : List Capability} {rounds : Nat} (h : pass edges caps ≠ caps)
      (rest : Settles edges (pass edges caps) final rounds) : Settles edges caps final (rounds + 1)

/-! ## The passes end -/

/-- The bound on the passes leaves no trace: they end as if there were none. -/
theorem settles_settle {edges : List (Nat × Nat)} {fuel : Nat} {caps : List Capability}
    (hfuel : 2 * caps.length < directions caps + fuel) :
    Settles edges caps (settle edges fuel caps).1 (settle edges fuel caps).2 := by
  induction fuel generalizing caps with
  | zero =>
    have hbound := directions_le caps
    omega
  | succ fuel ih =>
    rw [settle]
    split
    · next hstable => exact .stable hstable
    · next hchanged =>
      refine .again hchanged (ih ?_)
      have hgrow := allGrow_pass edges caps
      have hlength := hgrow.length_eq
      have hmore := hgrow.eq_or_lt.resolve_left fun heq => hchanged heq.symm
      omega

theorem rounds_settle_le (edges : List (Nat × Nat)) (fuel : Nat) (caps : List Capability) :
    (settle edges fuel caps).2 ≤ fuel := by
  induction fuel generalizing caps with
  | zero => exact Nat.le_refl 0
  | succ fuel ih =>
    rw [settle]
    split
    · exact Nat.succ_le_succ (Nat.zero_le fuel)
    · exact Nat.succ_le_succ (ih (pass edges caps))

/-! ## Edges and seeds of the graph -/

section

variable {entries : List Entry} {i j k : Nat} {x : Entry} {d : Direction}

theorem mem_allEdges_iff_refersAt : (i, j) ∈ allEdges entries ↔ RefersAt entries i j := by
  simp only [mem_allEdges_iff, targets, List.mem_filterMap]
  rfl

theorem inheritsAt_iff : inheritsAt entries j = true ↔ RolelessAt entries j := by
  unfold inheritsAt RolelessAt
  cases hx : entries[j]? with
  | none => simp
  | some x => simp [Item.inherits]

theorem mem_edges_iff_refersAt :
    (i, j) ∈ edges entries ↔ RefersAt entries i j ∧ RolelessAt entries j := by
  rw [edges, List.mem_filter, mem_allEdges_iff_refersAt]
  exact and_congr_right fun _ => inheritsAt_iff

theorem flows_iff_reaches : Flows entries i j ↔ i = j ∨ Reaches entries i j := by
  have hedges : (fun i j => (i, j) ∈ edges entries) =
      fun i j => RefersAt entries i j ∧ RolelessAt entries j := by
    funext i j
    exact propext mem_edges_iff_refersAt
  rw [Flows, hedges, Relation.reflTransGen_iff_eq_or_transGen, eq_comm]
  rfl

theorem unreferenced_iff (hx : entries[i]? = some x) (hrole : x.item.role? = none) :
    Unreferenced entries i ↔ ((allEdges entries).map (·.2)).contains i = false := by
  have hroleless : RolelessAt entries i := ⟨x, hx, hrole⟩
  rw [Unreferenced, and_iff_right hroleless, ← Bool.not_eq_true, List.contains_iff_mem]
  constructor
  · intro hnone hmem
    obtain ⟨⟨k, j⟩, hedge, rfl⟩ := List.mem_map.mp hmem
    exact hnone k (mem_allEdges_iff_refersAt.mp hedge)
  · intro hmem k hk
    exact hmem (List.mem_map.mpr ⟨(k, i), mem_allEdges_iff_refersAt.mpr hk, rfl⟩)

/-- What a position starts with is what it has as a seed. -/
theorem exists_seed_iff : (∃ s, Seed entries k s ∧ s.allows d = true) ↔
    ∃ c, (seeds entries)[k]? = some c ∧ c.allows d = true := by
  constructor
  · rintro ⟨s, hseed, hallows⟩
    cases hseed with
    | role hx hrole =>
      have hstart : (seeds entries)[k]? = some _ := getElem?_seedsFrom hx
      rw [seed, hrole] at hstart
      exact ⟨_, hstart, hallows⟩
    | unreferenced h =>
      obtain ⟨x, hx, hrole⟩ := h.1
      have hstart : (seeds entries)[k]? = some _ := getElem?_seedsFrom hx
      rw [seed, hrole, Nat.zero_add] at hstart
      simp only [(unreferenced_iff hx hrole).mp h] at hstart
      exact ⟨_, hstart, hallows⟩
  · rintro ⟨c, hc, hallows⟩
    have hk : k < entries.length := by
      rw [← length_seeds]
      exact (List.getElem?_eq_some_iff.mp hc).1
    have hx := List.getElem?_eq_getElem hk
    have hstart : (seeds entries)[k]? = some _ := getElem?_seedsFrom hx
    rw [hc, Option.some.injEq] at hstart
    cases hrole : entries[k].item.role? with
    | some role =>
      rw [seed, hrole] at hstart
      exact ⟨c, hstart ▸ .role hx hrole, hallows⟩
    | none =>
      rw [seed, hrole, Nat.zero_add] at hstart
      by_cases hreferenced : ((allEdges entries).map (·.2)).contains k = true
      · rw [hstart] at hallows
        simp only [if_pos hreferenced] at hallows
        cases d <;> cases hallows
      · have hunreferenced := (unreferenced_iff hx hrole).mpr (Bool.eq_false_iff.mpr hreferenced)
        exact ⟨_, .unreferenced hunreferenced, Capability.allows_both d⟩

theorem Seed.usable {s : Capability} (h : Seed entries k s) : ∃ d, s.allows d = true := by
  cases h with
  | @role _ role =>
    rcases usable_roleCapability role with hencode | hdecode
    · exact ⟨.encode, hencode⟩
    · exact ⟨.decode, hdecode⟩
  | unreferenced => exact ⟨.encode, rfl⟩

/-- A direction is received from a seed that is there or that reaches the position. -/
theorem receives_iff_reaches : Receives entries d i ↔
    (∃ s, Seed entries i s ∧ s.allows d = true) ∨
      ∃ k s, Seed entries k s ∧ s.allows d = true ∧ Reaches entries k i := by
  constructor
  · rintro ⟨k, c, hc, hallows, hflows⟩
    obtain ⟨s, hseed, hs⟩ := exists_seed_iff.mpr ⟨c, hc, hallows⟩
    rcases flows_iff_reaches.mp hflows with rfl | hreaches
    · exact Or.inl ⟨s, hseed, hs⟩
    · exact Or.inr ⟨k, s, hseed, hs, hreaches⟩
  · rintro (⟨s, hseed, hs⟩ | ⟨k, s, hseed, hs, hreaches⟩)
    · obtain ⟨c, hc, hallows⟩ := exists_seed_iff.mp ⟨s, hseed, hs⟩
      exact ⟨i, c, hc, hallows, .refl⟩
    · obtain ⟨c, hc, hallows⟩ := exists_seed_iff.mp ⟨s, hseed, hs⟩
      exact ⟨k, c, hc, hallows, flows_iff_reaches.mpr (Or.inr hreaches)⟩

theorem Reaches.roleless (h : Reaches entries k i) : RolelessAt entries i := by
  cases h with
  | single hedge => exact hedge.2
  | tail _ hedge => exact hedge.2

/-! ## The capability of every position -/

/-- Nothing reaches an item with a role, which keeps what the role gives. -/
theorem receives_role_iff {role : Role} (hx : entries[i]? = some x)
    (hrole : x.item.role? = some role) :
    Receives entries d i ↔ (roleCapability role).allows d = true := by
  have hnot : ¬ RolelessAt entries i := by
    rintro ⟨y, hy, hnone⟩
    cases hx.symm.trans hy
    rw [hrole] at hnone
    cases hnone
  rw [receives_iff_reaches]
  constructor
  · rintro (⟨s, hseed, hs⟩ | ⟨k, s, -, -, hreaches⟩)
    · cases hseed with
      | role hy hrole' =>
        cases hx.symm.trans hy
        cases hrole.symm.trans hrole'
        exact hs
      | unreferenced h => exact absurd h.1 hnot
    · exact absurd hreaches.roleless hnot
  · exact fun hallows => Or.inl ⟨_, .role hx hrole, hallows⟩

theorem receives_roleless_iff (hx : entries[i]? = some x) (hrole : x.item.role? = none) :
    Receives entries d i ↔ Unreferenced entries i ∨
      ∃ k s, Seed entries k s ∧ s.allows d = true ∧ Reaches entries k i := by
  rw [receives_iff_reaches]
  refine or_congr_left ⟨?_, fun h => ⟨_, .unreferenced h, Capability.allows_both d⟩⟩
  rintro ⟨s, hseed, -⟩
  cases hseed with
  | role hy hrole' =>
    cases hx.symm.trans hy
    rw [hrole] at hrole'
    cases hrole'
  | unreferenced h => exact h

theorem stranded_roleless_iff (hx : entries[i]? = some x) (hrole : x.item.role? = none) :
    Stranded entries i ↔
      ¬ Unreferenced entries i ∧ ¬ ∃ k s, Seed entries k s ∧ Reaches entries k i := by
  simp only [Stranded, receives_roleless_iff hx hrole, not_or]
  constructor
  · refine fun h => ⟨(h .encode).1, ?_⟩
    rintro ⟨k, s, hseed, hreaches⟩
    obtain ⟨d, hd⟩ := hseed.usable
    exact (h d).2 ⟨k, s, hseed, hd, hreaches⟩
  · rintro ⟨hreferenced, hnone⟩ d
    refine ⟨hreferenced, ?_⟩
    rintro ⟨k, s, hseed, -, hreaches⟩
    exact hnone ⟨k, s, hseed, hreaches⟩

/-- What the passes and the fallback leave at a position is what the graph says. -/
theorem deserves_fallback {c : Capability} (hx : entries[i]? = some x)
    (hc : (settledCapabilities entries)[i]? = some c) : Deserves entries i x (fallback x c) where
  role := by
    intro role hrole
    refine Capability.eq_of_allows (fun d => ?_) ?_
    · have hkept : ¬ Stranded entries i := by
        intro hstranded
        have hinherits := hstranded.inherits hx
        rw [Item.inherits, hrole] at hinherits
        cases hinherits
      rw [allows_fallback_iff hx hc, receives_role_iff hx hrole, or_iff_left hkept]
    · rw [urlEncoded_fallback hx hc, hrole]
      cases role <;> rfl
  directions := by
    intro hrole d
    rw [allows_fallback_iff hx hc, receives_roleless_iff hx hrole, stranded_roleless_iff hx hrole]
    by_cases hfree : Unreferenced entries i
    · exact iff_of_true (Or.inl (Or.inl hfree)) (Or.inl hfree)
    · rw [or_assoc, and_iff_right hfree]
  plain := by
    intro hrole
    rw [urlEncoded_fallback hx hc, hrole]
    rfl

end

/-- Every item has the capability of its role; one without a role is not URL-encoded. -/
theorem capability_of_mem {e : Endpoint} {i : Item} (hi : i ∈ e.withCapabilities.items) :
    (∀ role, i.role? = some role → i.capability = roleCapability role) ∧
      (i.role? = none → i.capability.urlEncoded = false) := by
  rw [← map_item_entries] at hi
  obtain ⟨x, hx, rfl⟩ := List.mem_map.mp hi
  obtain ⟨k, hk⟩ := List.getElem?_of_mem hx
  obtain ⟨x₀, c, hx₀, hc, -, hitem⟩ := getElem?_entries_withCapabilities hk
  have hdeserves := deserves_fallback hx₀ hc
  rw [hitem, Item.capability_withCapability, Item.role?_withCapability]
  exact ⟨hdeserves.role, hdeserves.plain⟩

/-- What is written as a query string is never received. -/
theorem decode_of_urlEncoded {e : Endpoint} {i : Item} (hi : i ∈ e.withCapabilities.items)
    (hurl : i.capability.urlEncoded = true) : i.capability.decode = false := by
  obtain ⟨hroles, hplain⟩ := capability_of_mem hi
  cases hrole : i.role? with
  | some role =>
    rw [hroles role hrole] at hurl ⊢
    revert hurl
    cases role <;> decide
  | none =>
    rw [hplain hrole] at hurl
    cases hurl

/-- Capabilities are assigned in finitely many passes, and every item gets the capability of its
role or what the seeds that reach it along references give; nothing else of the item changes. -/
theorem withCapabilities_deserves (e : Endpoint) :
    (∃ settled, Settles (edges e.entries) (seeds e.entries) settled (capabilities e).rounds ∧
      (capabilities e).capabilities = e.entries.zipWith fallback settled) ∧
    (capabilities e).rounds ≤ 2 * e.entries.length + 1 ∧
    ∀ i x, e.entries[i]? = some x → ∃ c, Deserves e.entries i x c ∧
      e.withCapabilities.entries[i]?.map (fun y => (y.methodIndex, y.item)) =
        some (x.methodIndex, x.item.withCapability c) := by
  refine ⟨⟨settledCapabilities e.entries, settles_settle ?_, rfl⟩, ?_,
    fun i x hx => ?_⟩
  · rw [length_seeds]
    omega
  · exact rounds_settle_le (edges e.entries) (2 * e.entries.length + 1) (seeds e.entries)
  · have hi : i < (settledCapabilities e.entries).length := by
      rw [length_settledCapabilities]
      exact (List.getElem?_eq_some_iff.mp hx).1
    have hc := List.getElem?_eq_getElem hi
    refine ⟨_, deserves_fallback hx hc, ?_⟩
    rw [← List.getElem?_map, entries_withCapabilities, List.getElem?_zipWith, hx,
      getElem?_capabilities hx hc]

example : (capabilities cycleEndpoint).capabilities =
    [.both, { encode := true }, { encode := true }] := by
  decide

end Schema
end EndpointDsl
