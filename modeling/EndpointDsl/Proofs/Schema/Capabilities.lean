import EndpointDsl.Proofs.Lists
import EndpointDsl.Schema.Analysis

/-!
Which item gets which capability, and that every item gets one.

Capabilities are worked out for the entries of an endpoint in declaration order and handed back to
the items method by method.  Flowing along references only ever adds to a capability, so what a role
gives is never lost; an item without a role that gains nothing falls back to both directions.
-/

namespace EndpointDsl
namespace Schema

/-! ## Growth -/

/-- One capability has at least the directions of another, and is URL-encoded alike. -/
structure Capability.Grows (a b : Capability) : Prop where
  encode : a.encode = true → b.encode = true
  decode : a.decode = true → b.decode = true
  urlEncoded : b.urlEncoded = a.urlEncoded

theorem Capability.Grows.refl (a : Capability) : a.Grows a := ⟨id, id, rfl⟩

theorem Capability.Grows.trans {a b c : Capability} (hab : a.Grows b) (hbc : b.Grows c) :
    a.Grows c :=
  ⟨hbc.encode ∘ hab.encode, hbc.decode ∘ hab.decode, hbc.urlEncoded.trans hab.urlEncoded⟩

theorem Capability.grows_merge (a b : Capability) : a.Grows (a.merge b) := by
  refine ⟨fun h => ?_, fun h => ?_, rfl⟩
  · simp [Capability.merge, h]
  · simp [Capability.merge, h]

/-- Position by position, nothing is lost from one list to another. -/
abbrev AllGrow (before after : List Capability) : Prop :=
  List.Forall₂ Capability.Grows before after

theorem AllGrow.refl (caps : List Capability) : AllGrow caps caps :=
  List.forall₂_same.mpr fun c _ => Capability.Grows.refl c

theorem AllGrow.trans {a b c : List Capability} (hab : AllGrow a b) (hbc : AllGrow b c) :
    AllGrow a c := by
  induction hab generalizing c with
  | nil =>
    cases hbc
    exact .nil
  | cons hx _ ih =>
    cases hbc with
    | cons hy hrest => exact .cons (hx.trans hy) (ih hrest)

theorem allGrow_set {caps : List Capability} {i : Nat} {old new : Capability}
    (hi : caps[i]? = some old) (hgrows : old.Grows new) : AllGrow caps (caps.set i new) := by
  induction caps generalizing i with
  | nil => cases hi
  | cons c rest ih =>
    cases i with
    | zero =>
      cases hi
      exact .cons hgrows (AllGrow.refl rest)
    | succ i => exact .cons (Capability.Grows.refl c) (ih hi)

theorem allGrow_flow (caps : List Capability) (edge : Nat × Nat) :
    AllGrow caps (flow caps edge) := by
  unfold flow
  split
  · next user target _ htarget => exact allGrow_set htarget (Capability.grows_merge target user)
  · exact AllGrow.refl caps

theorem allGrow_pass (edges : List (Nat × Nat)) (caps : List Capability) :
    AllGrow caps (pass edges caps) := by
  induction edges generalizing caps with
  | nil => exact AllGrow.refl caps
  | cons e rest ih => exact (allGrow_flow caps e).trans (ih (flow caps e))

theorem allGrow_settle (edges : List (Nat × Nat)) (fuel : Nat) (caps : List Capability) :
    AllGrow caps (settle edges fuel caps).1 := by
  induction fuel generalizing caps with
  | zero => exact AllGrow.refl caps
  | succ fuel ih =>
    rw [settle]
    split
    · exact AllGrow.refl caps
    · exact (allGrow_pass edges caps).trans (ih (pass edges caps))

/-! ## What every item can do -/

/-- An item with the capability can be sent or received. -/
def Capability.Usable (c : Capability) : Prop := c.encode = true ∨ c.decode = true

theorem usable_roleCapability (role : Role) : (roleCapability role).Usable := by
  cases role <;> simp [Capability.Usable, roleCapability, Capability.both]

theorem Capability.Usable.grow {a b : Capability} (h : a.Usable) (hab : a.Grows b) : b.Usable :=
  h.imp hab.encode hab.decode

theorem usable_seedsFrom (referenced : List Nat) (position : Nat) (entries : List Entry) :
    List.Forall₂ (fun x c => x.item.inherits = false → c.Usable) entries
      (seedsFrom referenced position entries) := by
  induction entries generalizing position with
  | nil => exact .nil
  | cons x rest ih =>
    refine .cons (fun hx => ?_) (ih (position + 1))
    cases hrole : x.item.role? with
    | none => simp [Item.inherits, hrole] at hx
    | some role =>
      rw [seed, hrole]
      exact usable_roleCapability role

theorem usable_of_allGrow {entries : List Entry} {before after : List Capability}
    (h : List.Forall₂ (fun x c => x.item.inherits = false → c.Usable) entries before)
    (hgrow : AllGrow before after) :
    List.Forall₂ (fun x c => x.item.inherits = false → c.Usable) entries after := by
  induction h generalizing after with
  | nil =>
    cases hgrow
    exact .nil
  | cons hx _ ih =>
    cases hgrow with
    | cons hc hrest => exact .cons (fun hi => (hx hi).grow hc) (ih hrest)

theorem usable_fallback {x : Entry} {c : Capability} (h : x.item.inherits = false → c.Usable) :
    (fallback x c).Usable := by
  unfold fallback
  split
  · exact Or.inl rfl
  · next hnot =>
    cases hx : x.item.inherits with
    | false => exact h hx
    | true =>
      rw [hx, Bool.true_and, Bool.not_eq_true', Bool.not_eq_false, Bool.or_eq_true] at hnot
      exact hnot

theorem usable_zipWith_fallback {entries : List Entry} {caps : List Capability}
    (h : List.Forall₂ (fun x c => x.item.inherits = false → c.Usable) entries caps) :
    List.Forall₂ (fun _ c => c.Usable) entries (entries.zipWith fallback caps) := by
  induction h with
  | nil => exact .nil
  | cons hx _ ih => exact .cons (usable_fallback hx) ih

/-- The capabilities of an endpoint belong to its entries one by one, and each is usable. -/
theorem usable_capabilities (e : Endpoint) :
    List.Forall₂ (fun _ c => c.Usable) e.entries (capabilities e).capabilities :=
  usable_zipWith_fallback (usable_of_allGrow
    (usable_seedsFrom ((allEdges e.entries).map (·.2)) 0 e.entries)
    (allGrow_settle (edges e.entries) (2 * e.entries.length + 1) (seeds e.entries)))

/-! ## Handing capabilities back to the items -/

theorem map_item_entriesFrom (index : Nat) (methods : List Method) :
    (entriesFrom index methods).map (·.item) = methods.flatMap (·.items) := by
  induction methods generalizing index with
  | nil => rfl
  | cons m rest ih =>
    rw [entriesFrom, List.map_append, ih, List.flatMap_cons]
    simp [methodEntries, Function.comp_def]

theorem map_item_entries (e : Endpoint) : e.entries.map (·.item) = e.items :=
  map_item_entriesFrom 0 e.methods

theorem length_capabilities (e : Endpoint) :
    (capabilities e).capabilities.length = e.items.length := by
  rw [← (usable_capabilities e).length_eq, ← map_item_entries, List.length_map]

/-- An item that got a usable capability. -/
def Item.Assigned (i i' : Item) : Prop := ∃ c : Capability, c.Usable ∧ i' = i.withCapability c

/-- A method all of whose items got usable capabilities. -/
def Method.Assigned (m m' : Method) : Prop :=
  ∃ items, List.Forall₂ Item.Assigned m.items items ∧ m' = { m with items }

theorem takeCapabilities_spec {items : List Item} {caps : List Capability}
    (hlength : items.length ≤ caps.length) (hcaps : ∀ c ∈ caps, c.Usable) :
    List.Forall₂ Item.Assigned items (takeCapabilities items caps).1 ∧
      (takeCapabilities items caps).2 = caps.drop items.length := by
  induction items generalizing caps with
  | nil => exact ⟨.nil, rfl⟩
  | cons i rest ih =>
    cases caps with
    | nil => cases hlength
    | cons c caps =>
      have hrest := ih (Nat.le_of_succ_le_succ hlength) fun d hd =>
        hcaps d (List.mem_cons_of_mem c hd)
      exact ⟨.cons ⟨c, hcaps c List.mem_cons_self, rfl⟩ hrest.1, hrest.2⟩

theorem assigned_assignMethods {methods : List Method} {caps : List Capability}
    (hlength : (methods.flatMap (·.items)).length ≤ caps.length) (hcaps : ∀ c ∈ caps, c.Usable) :
    List.Forall₂ Method.Assigned methods (assignMethods methods caps) := by
  induction methods generalizing caps with
  | nil => exact .nil
  | cons m rest ih =>
    rw [List.flatMap_cons, List.length_append] at hlength
    have htaken := takeCapabilities_spec (show m.items.length ≤ caps.length by omega) hcaps
    refine .cons ⟨_, htaken.1, rfl⟩ (ih ?_ ?_)
    all_goals rw [htaken.2]
    · rw [List.length_drop]
      omega
    · exact fun c hc => hcaps c (List.mem_of_mem_drop hc)

theorem assigned_withCapabilities (e : Endpoint) :
    List.Forall₂ Method.Assigned e.methods e.withCapabilities.methods := by
  refine assigned_assignMethods (Nat.le_of_eq (length_capabilities e).symm) fun c hc => ?_
  obtain ⟨i, hi, rfl⟩ := List.mem_iff_getElem.mp hc
  have hall := usable_capabilities e
  exact (List.forall₂_iff_get.mp hall).2 i (hall.length_eq ▸ hi) hi

/-- Every item with capabilities is one that was declared, with a usable capability. -/
theorem exists_assigned_of_mem {e : Endpoint} {i' : Item} (h : i' ∈ e.withCapabilities.items) :
    ∃ m ∈ e.methods, ∃ i ∈ m.items, i.Assigned i' := by
  obtain ⟨m', hm', hi'⟩ := List.mem_flatMap.mp h
  obtain ⟨m, hm, items, hitems, rfl⟩ := exists_of_mem_forall₂ (assigned_withCapabilities e) hm'
  obtain ⟨i, hi, hassigned⟩ := exists_of_mem_forall₂ hitems hi'
  exact ⟨m, hm, i, hi, hassigned⟩

end Schema
end EndpointDsl
