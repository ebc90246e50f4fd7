import EndpointDsl.Proofs.Schema.Capabilities
import EndpointDsl.Proofs.Schema.MethodRules
import Mathlib.Algebra.Ring.Nat
import Mathlib.Logic.Relation

/-!
What the passes over the references of an endpoint compute.

Passes only add directions, and there are two per item, so the passes settle before they run out.
Where they settle, every reference is satisfied: its target has the directions of its user.  A
direction is only ever added along a reference.  So an item ends up with exactly the directions of
the items that reach it, each taken with the capability it starts from.
-/

namespace EndpointDsl
namespace Schema

/-- The two ways a value can travel. -/
inductive Direction
  | encode
  | decode
  deriving DecidableEq, Repr

def Capability.allows (c : Capability) : Direction → Bool
  | .encode => c.encode
  | .decode => c.decode

@[simp] theorem Capability.allows_merge (c other : Capability) (d : Direction) :
    (c.merge other).allows d = (c.allows d || other.allows d) := by
  cases d <;> rfl

@[simp] theorem Capability.allows_both (d : Direction) : Capability.both.allows d = true := by
  cases d <;> rfl

theorem Capability.Grows.allows {a b : Capability} (h : a.Grows b) {d : Direction}
    (ha : a.allows d = true) : b.allows d = true := by
  cases d with
  | encode => exact h.encode ha
  | decode => exact h.decode ha

theorem Capability.Grows.antisymm {a b : Capability} (hab : a.Grows b) (hba : b.Grows a) :
    a = b := by
  obtain ⟨aEncode, aDecode, aUrl⟩ := a
  obtain ⟨bEncode, bDecode, bUrl⟩ := b
  have hencode : aEncode = bEncode := Bool.eq_iff_iff.mpr ⟨hab.encode, hba.encode⟩
  have hdecode : aDecode = bDecode := Bool.eq_iff_iff.mpr ⟨hab.decode, hba.decode⟩
  have hurl : bUrl = aUrl := hab.urlEncoded
  rw [hencode, hdecode, hurl]

/-- A capability is known by its directions and by whether it is URL-encoded. -/
theorem Capability.eq_of_allows {a b : Capability}
    (hallows : ∀ d, a.allows d = true ↔ b.allows d = true) (hurl : a.urlEncoded = b.urlEncoded) :
    a = b :=
  Grows.antisymm ⟨(hallows .encode).mp, (hallows .decode).mp, hurl.symm⟩
    ⟨(hallows .encode).mpr, (hallows .decode).mpr, hurl⟩

theorem AllGrow.antisymm {before after : List Capability} (h : AllGrow before after)
    (h' : AllGrow after before) : before = after := by
  induction h with
  | nil => rfl
  | cons hc _ ih =>
    cases h' with
    | cons hc' hrest => rw [hc.antisymm hc', ih hrest]

/-! ## The passes settle -/

def Capability.directions (c : Capability) : Nat := c.encode.toNat + c.decode.toNat

/-- How many directions the items have in all. -/
def directions (caps : List Capability) : Nat := (caps.map (·.directions)).sum

theorem directions_le (caps : List Capability) : directions caps ≤ 2 * caps.length := by
  induction caps with
  | nil => exact Nat.le_refl 0
  | cons c rest ih =>
    have hc : c.directions ≤ 2 := by
      have hencode := Bool.toNat_le c.encode
      have hdecode := Bool.toNat_le c.decode
      rw [Capability.directions]
      omega
    simp only [directions, List.map_cons, List.sum_cons, List.length_cons] at ih ⊢
    omega

theorem Capability.Grows.eq_or_lt {a b : Capability} (h : a.Grows b) :
    a = b ∨ a.directions < b.directions := by
  by_cases hback : b.Grows a
  · exact Or.inl (h.antisymm hback)
  · refine Or.inr ?_
    have hencode := h.encode
    have hdecode := h.decode
    have hlost : ¬ ((b.encode = true → a.encode = true) ∧ (b.decode = true → a.decode = true)) :=
      fun hback' => hback ⟨hback'.1, hback'.2, h.urlEncoded.symm⟩
    rw [Capability.directions, Capability.directions]
    generalize a.encode = aEncode at *
    generalize a.decode = aDecode at *
    generalize b.encode = bEncode at *
    generalize b.decode = bDecode at *
    revert hlost hencode hdecode
    decide +revert

theorem AllGrow.eq_or_lt {before after : List Capability} (h : AllGrow before after) :
    before = after ∨ directions before < directions after := by
  induction h with
  | nil => exact Or.inl rfl
  | cons hc _ ih =>
    simp only [directions, List.map_cons, List.sum_cons] at ih ⊢
    rcases hc.eq_or_lt with rfl | hlt
    · rcases ih with rfl | hlt
      · exact Or.inl rfl
      · exact Or.inr (by omega)
    · rcases ih with rfl | hlt'
      · exact Or.inr (by omega)
      · exact Or.inr (by omega)

/-- A pass that still changes something adds a direction, so the bound on the passes is never
what ends them. -/
theorem pass_settle {edges : List (Nat × Nat)} {fuel : Nat} {caps : List Capability}
    (hfuel : 2 * caps.length < directions caps + fuel) :
    pass edges (settle edges fuel caps).1 = (settle edges fuel caps).1 := by
  induction fuel generalizing caps with
  | zero =>
    have := directions_le caps
    omega
  | succ fuel ih =>
    rw [settle]
    split
    · next hstable => exact hstable
    · next hchanged =>
      have hgrow := allGrow_pass edges caps
      have hlength := hgrow.length_eq
      refine ih ?_
      rcases hgrow.eq_or_lt with heq | hlt
      · exact absurd heq.symm hchanged
      · omega

/-! ## Every reference is satisfied -/

/-- A pass that changes nothing changes nothing at any of its references. -/
theorem flow_of_pass {edges : List (Nat × Nat)} {caps : List Capability}
    (h : pass edges caps = caps) : ∀ edge ∈ edges, flow caps edge = caps := by
  induction edges with
  | nil => exact fun edge hedge => nomatch hedge
  | cons first rest ih =>
    have hfirst : flow caps first = caps := by
      have hback : AllGrow (flow caps first) (pass rest (flow caps first)) := allGrow_pass _ _
      replace h : pass rest (flow caps first) = caps := h
      rw [h] at hback
      exact hback.antisymm (allGrow_flow caps first)
    have hrest : pass rest caps = caps := by
      replace h : pass rest (flow caps first) = caps := h
      rwa [hfirst] at h
    intro edge hedge
    rcases List.mem_cons.mp hedge with rfl | hedge
    · exact hfirst
    · exact ih hrest edge hedge

theorem allows_of_flow {caps : List Capability} {i j : Nat} (h : flow caps (i, j) = caps)
    {user target : Capability} (hi : caps[i]? = some user) (hj : caps[j]? = some target)
    {d : Direction} (huser : user.allows d = true) : target.allows d = true := by
  have hset : caps.set j (target.merge user) = caps := by
    rw [flow, hi, hj] at h
    exact h
  have hmerged : caps[j]? = some (target.merge user) := by
    rw [← hset, List.getElem?_set_self (List.getElem?_eq_some_iff.mp hj).1]
  rw [hj] at hmerged
  rw [Option.some.inj hmerged, Capability.allows_merge, huser, Bool.or_true]

/-! ## Directions come along references -/

/-- An item is reached from another along the references that capabilities flow along. -/
def Flows (entries : List Entry) : Nat → Nat → Prop :=
  Relation.ReflTransGen fun i j => (i, j) ∈ edges entries

/-- An item that starts with a direction reaches the item. -/
def Receives (entries : List Entry) (d : Direction) (j : Nat) : Prop :=
  ∃ i c, (seeds entries)[i]? = some c ∧ c.allows d = true ∧ Flows entries i j

/-- Every direction comes from an item that starts with it. -/
def Justified (entries : List Entry) (caps : List Capability) : Prop :=
  ∀ d j c, caps[j]? = some c → c.allows d = true → Receives entries d j

variable {entries : List Entry}

theorem justified_seeds : Justified entries (seeds entries) :=
  fun _ j c hc hallows => ⟨j, c, hc, hallows, .refl⟩

theorem Justified.flow {caps : List Capability} (h : Justified entries caps) {edge : Nat × Nat}
    (hedge : edge ∈ edges entries) : Justified entries (flow caps edge) := by
  obtain ⟨i, j⟩ := edge
  unfold Schema.flow
  split
  · next user target huser htarget =>
    intro d k c hc hallows
    by_cases hk : k = j
    · subst hk
      rw [List.getElem?_set_self (List.getElem?_eq_some_iff.mp htarget).1] at hc
      cases hc
      rw [Capability.allows_merge, Bool.or_eq_true] at hallows
      rcases hallows with htargetAllows | huserAllows
      · exact h d k target htarget htargetAllows
      · obtain ⟨source, s, hs, hsAllows, hflows⟩ := h d i user huser huserAllows
        exact ⟨source, s, hs, hsAllows, hflows.tail hedge⟩
    · rw [List.getElem?_set_ne (Ne.symm hk)] at hc
      exact h d k c hc hallows
  · exact h

theorem Justified.pass {caps : List Capability} (h : Justified entries caps)
    {part : List (Nat × Nat)} (hpart : ∀ edge ∈ part, edge ∈ edges entries) :
    Justified entries (pass part caps) := by
  induction part generalizing caps with
  | nil => exact h
  | cons edge rest ih =>
    exact ih (h.flow (hpart edge List.mem_cons_self)) fun other hother =>
      hpart other (List.mem_cons_of_mem edge hother)

theorem Justified.settle {caps : List Capability} (h : Justified entries caps) (fuel : Nat) :
    Justified entries (settle (edges entries) fuel caps).1 := by
  induction fuel generalizing caps with
  | zero => exact h
  | succ fuel ih =>
    rw [Schema.settle]
    split
    · exact h
    · exact ih (h.pass fun _ hedge => hedge)

/-! ## The directions of every item -/

/-- The capabilities where the passes settle. -/
def settledCapabilities (entries : List Entry) : List Capability :=
  (settle (edges entries) (2 * entries.length + 1) (seeds entries)).1

theorem length_seedsFrom (referenced : List Nat) (position : Nat) (entries : List Entry) :
    (seedsFrom referenced position entries).length = entries.length := by
  induction entries generalizing position with
  | nil => rfl
  | cons x rest ih => rw [seedsFrom, List.length_cons, List.length_cons, ih]

theorem length_seeds : (seeds entries).length = entries.length := length_seedsFrom _ _ _

theorem allGrow_settledCapabilities : AllGrow (seeds entries) (settledCapabilities entries) :=
  allGrow_settle _ _ _

theorem length_settledCapabilities : (settledCapabilities entries).length = entries.length := by
  rw [← allGrow_settledCapabilities.length_eq, length_seeds]

theorem pass_settledCapabilities :
    pass (edges entries) (settledCapabilities entries) = settledCapabilities entries := by
  refine pass_settle ?_
  rw [length_seeds]
  omega

theorem mem_allEdgesFrom {all : List Entry} {position : Nat} {entries : List Entry}
    {edge : Nat × Nat} :
    edge ∈ allEdgesFrom all position entries ↔
      ∃ k x, entries[k]? = some x ∧ edge.1 = position + k ∧ edge.2 ∈ targets all x := by
  obtain ⟨i, j⟩ := edge
  induction entries generalizing position with
  | nil => simp [allEdgesFrom]
  | cons x rest ih =>
    rw [allEdgesFrom, List.mem_append, ih]
    constructor
    · rintro (hfirst | ⟨k, y, hy, hi, hj⟩)
      · obtain ⟨t, ht, heq⟩ := List.mem_map.mp hfirst
        cases heq
        exact ⟨0, x, rfl, rfl, ht⟩
      · exact ⟨k + 1, y, hy, by omega, hj⟩
    · rintro ⟨k, y, hy, hi, hj⟩
      cases k with
      | zero =>
        cases hy
        exact Or.inl (List.mem_map.mpr ⟨j, hj, by rw [show i = position from hi]⟩)
      | succ k => exact Or.inr ⟨k, y, hy, by omega, hj⟩

/-- A reference leads from the entry that makes it to the position that it resolves to. -/
theorem mem_allEdges_iff {i j : Nat} :
    (i, j) ∈ allEdges entries ↔ ∃ x, entries[i]? = some x ∧ j ∈ targets entries x := by
  rw [allEdges, mem_allEdgesFrom]
  constructor
  · rintro ⟨k, x, hx, hi, hj⟩
    rw [Nat.zero_add] at hi
    obtain rfl : i = k := hi
    exact ⟨x, hx, hj⟩
  · rintro ⟨x, hx, hj⟩
    exact ⟨i, x, hx, (Nat.zero_add i).symm, hj⟩

theorem mem_edges_iff {i j : Nat} :
    (i, j) ∈ edges entries ↔
      (∃ x, entries[i]? = some x ∧ j ∈ targets entries x) ∧ inheritsAt entries j = true := by
  rw [edges, List.mem_filter, mem_allEdges_iff]

theorem lt_length_of_mem_edges {i j : Nat} (h : (i, j) ∈ edges entries) :
    i < entries.length ∧ j < entries.length := by
  obtain ⟨⟨x, hx, hj⟩, -⟩ := mem_edges_iff.mp h
  obtain ⟨r, -, hr⟩ := List.mem_filterMap.mp hj
  exact ⟨(List.getElem?_eq_some_iff.mp hx).1, lt_length_of_resolveIndex? hr⟩

theorem allows_of_mem_edges {i j : Nat} (h : (i, j) ∈ edges entries) {user target : Capability}
    (hi : (settledCapabilities entries)[i]? = some user)
    (hj : (settledCapabilities entries)[j]? = some target) {d : Direction}
    (huser : user.allows d = true) : target.allows d = true :=
  allows_of_flow (flow_of_pass pass_settledCapabilities (i, j) h) hi hj huser

/-- Where the passes settle, an item has the directions that it receives and no other. -/
theorem allows_settled_iff {j : Nat} {c : Capability}
    (hc : (settledCapabilities entries)[j]? = some c) {d : Direction} :
    c.allows d = true ↔ Receives entries d j := by
  constructor
  · exact (justified_seeds.settle _) d j c hc
  · rintro ⟨i, s, hs, hallows, hflows⟩
    -- The induction follows the references that lead from the start to the item.
    induction hflows generalizing c with
    | refl =>
      have hgrow : AllGrow (seeds entries) (settledCapabilities entries) :=
        allGrow_settledCapabilities
      obtain ⟨hi, rfl⟩ := List.getElem?_eq_some_iff.mp hs
      obtain ⟨hi', rfl⟩ := List.getElem?_eq_some_iff.mp hc
      exact ((List.forall₂_iff_get.mp hgrow).2 i hi hi').allows hallows
    | @tail k j _ hedge ih =>
      have hk : k < (settledCapabilities entries).length := by
        rw [length_settledCapabilities]
        exact (lt_length_of_mem_edges hedge).1
      have huser := ih (List.getElem?_eq_getElem hk)
      exact allows_of_mem_edges hedge (List.getElem?_eq_getElem hk) hc huser

end Schema
end EndpointDsl
