import EndpointDsl.Json.Value
import EndpointDsl.Path.Template
import EndpointDsl.Schema.Analysis
import EndpointDsl.Schema.Rules.Member
import Mathlib.Data.List.Forall2
import Mathlib.Data.List.Nodup
import Mathlib.Tactic.Tauto

/-!
Facts about the tables and walks that the rules are written with: association lists, walks that
keep the first element under each name, and steps that can fail repeated along a list.
-/

namespace EndpointDsl

/-! ## Association lists -/

theorem lookup?_eq_none_iff {α : Type} {key : String} {table : List (String × α)} :
    lookup? key table = none ↔ key ∉ table.map (·.1) := by
  induction table with
  | nil => simp [lookup?]
  | cons e rest ih =>
    obtain ⟨k, v⟩ := e
    by_cases hk : k = key
    · simp [lookup?, hk]
    · simp [lookup?, hk, ih, Ne.symm hk]

theorem mem_of_lookup? {α : Type} {key : String} {value : α} {table : List (String × α)}
    (h : lookup? key table = some value) : (key, value) ∈ table := by
  induction table with
  | nil => simp [lookup?] at h
  | cons e rest ih =>
    obtain ⟨k, v⟩ := e
    by_cases hk : k = key
    · simp only [lookup?, hk, if_true, Option.some.injEq] at h
      rw [hk, h]
      exact List.mem_cons_self
    · rw [lookup?, if_neg hk] at h
      exact List.mem_cons_of_mem _ (ih h)

/-- In a table without repeated keys every entry is the one that its key finds. -/
theorem lookup?_of_mem {α : Type} {key : String} {value : α} {table : List (String × α)}
    (hkeys : (table.map (·.1)).Nodup) (h : (key, value) ∈ table) :
    lookup? key table = some value := by
  induction table with
  | nil => simp at h
  | cons e rest ih =>
    obtain ⟨k, v⟩ := e
    rw [List.map_cons, List.nodup_cons] at hkeys
    rcases List.mem_cons.mp h with heq | hrest
    · obtain ⟨rfl, rfl⟩ := Prod.mk.inj heq
      rw [lookup?, if_pos rfl]
    · have hne : k ≠ key := by
        intro e
        exact hkeys.1 (List.mem_map.mpr ⟨(key, value), hrest, e.symm⟩)
      rw [lookup?, if_neg hne]
      exact ih hkeys.2 hrest

theorem mem_of_mem_put {α : Type} {key : String} {value : α} {table : List (String × α)}
    {e : String × α} (h : e ∈ put key value table) : e ∈ table ∨ e.2 = value := by
  induction table with
  | nil =>
    rw [put, List.mem_singleton] at h
    exact Or.inr (by rw [h])
  | cons x rest ih =>
    obtain ⟨k, v⟩ := x
    rw [put] at h
    split at h
    · rcases List.mem_cons.mp h with rfl | h
      · exact Or.inr rfl
      · exact Or.inl (List.mem_cons_of_mem _ h)
    · rcases List.mem_cons.mp h with rfl | h
      · exact Or.inl List.mem_cons_self
      · exact (ih h).imp_left (List.mem_cons_of_mem _)

theorem exists_of_mem_foldl_put {α : Type} {e : String × α} {fields table : List (String × α)}
    (h : e ∈ fields.foldl (fun acc f => put f.1 f.2 acc) table) :
    e ∈ table ∨ ∃ f ∈ fields, f.2 = e.2 := by
  induction fields generalizing table with
  | nil => exact Or.inl h
  | cons f rest ih =>
    rcases ih h with hput | ⟨g, hg, hvalue⟩
    · rcases mem_of_mem_put hput with htable | hvalue
      · exact Or.inl htable
      · exact Or.inr ⟨f, List.mem_cons_self, hvalue.symm⟩
    · exact Or.inr ⟨g, List.mem_cons_of_mem f hg, hvalue⟩

theorem lookup?_append {α : Type} {key : String} {table other : List (String × α)} :
    lookup? key (table ++ other) = (lookup? key table).or (lookup? key other) := by
  induction table with
  | nil => rfl
  | cons e rest ih =>
    obtain ⟨k, v⟩ := e
    rw [List.cons_append, lookup?, lookup?]
    split
    · rfl
    · exact ih

/-- What a table keeps under a key is the last value that it was given. -/
theorem lookup?_foldl_put {α : Type} {key : String} {fields table : List (String × α)} :
    lookup? key (fields.foldl (fun acc f => put f.1 f.2 acc) table) =
      (lookup? key fields.reverse).or (lookup? key table) := by
  induction fields generalizing table with
  | nil => rfl
  | cons f rest ih =>
    obtain ⟨k, v⟩ := f
    rw [List.foldl_cons, ih, List.reverse_cons, lookup?_append, Option.or_assoc]
    congr 1
    by_cases hk : k = key
    · rw [hk, lookup?_put_self, lookup?, if_pos rfl, Option.some_or]
    · rw [lookup?_put_of_ne (Ne.symm hk), lookup?, if_neg hk]
      rfl

theorem lookup?_lastWins {α : Type} {key : String} {fields : List (String × α)} :
    lookup? key (lastWins fields) = lookup? key fields.reverse := by
  rw [lastWins, lookup?_foldl_put]
  exact Option.or_none

/-- In a table of what some elements have under their keys, a key finds what its element has. -/
theorem lookup?_filterMap {α β : Type} (key : α → String) (value : α → Option β) {xs : List α}
    (hkeys : (xs.map key).Nodup) {x : α} (hx : x ∈ xs) :
    lookup? (key x) (xs.filterMap fun y => (value y).map (key y, ·)) = value x := by
  induction xs with
  | nil => cases hx
  | cons y rest ih =>
    rw [List.map_cons, List.nodup_cons] at hkeys
    rw [List.filterMap_cons]
    rcases List.mem_cons.mp hx with rfl | hrest
    · cases hvalue : value x with
      | none =>
        refine lookup?_eq_none_iff.mpr fun hmem => hkeys.1 ?_
        obtain ⟨e, he, hname⟩ := List.mem_map.mp hmem
        obtain ⟨z, hz, hsome⟩ := List.mem_filterMap.mp he
        obtain ⟨v, -, rfl⟩ := Option.map_eq_some_iff.mp hsome
        exact List.mem_map.mpr ⟨z, hz, hname⟩
      | some v => exact if_pos rfl
    · have hne : key y ≠ key x := fun heq => hkeys.1 (heq ▸ List.mem_map_of_mem hrest)
      cases hvalue : value y with
      | none => exact ih hkeys.2 hrest
      | some v => exact (if_neg hne).trans (ih hkeys.2 hrest)

/-! ## Names that differ from each other and from those seen before

Every rule about different names walks a list and compares each name with the names before it.
`Fresh` is what such a walk establishes, and `fresh_cons` is its step. -/

section Fresh

variable {α β : Type} {key : α → β} {seen : List β}

/-- The keys of the elements differ from each other and from the keys in `seen`. -/
def Fresh (key : α → β) (seen : List β) (xs : List α) : Prop :=
  (xs.map key).Nodup ∧ ∀ x ∈ xs, key x ∉ seen

@[simp] theorem fresh_nil : Fresh key seen [] := ⟨List.nodup_nil, fun _ h => nomatch h⟩

theorem fresh_cons {x : α} {rest : List α} :
    Fresh key seen (x :: rest) ↔ key x ∉ seen ∧ Fresh key (key x :: seen) rest := by
  simp only [Fresh, List.map_cons, List.nodup_cons, List.mem_map, List.mem_cons, not_or]
  constructor
  · rintro ⟨⟨hx, hrest⟩, hseen⟩
    exact ⟨hseen x (Or.inl rfl), hrest, fun y hy => ⟨fun e => hx ⟨y, hy, e⟩, hseen y (Or.inr hy)⟩⟩
  · rintro ⟨hx, hrest, hseen⟩
    refine ⟨⟨?_, hrest⟩, ?_⟩
    · rintro ⟨y, hy, e⟩
      exact (hseen y hy).1 e
    · rintro y (rfl | hy)
      · exact hx
      · exact (hseen y hy).2

theorem fresh_nil_seen {xs : List α} : Fresh key [] xs ↔ (xs.map key).Nodup := by
  simp [Fresh]

/-- Only which keys were seen matters, not in what order. -/
theorem fresh_congr {other : List β} (h : ∀ b, b ∈ seen ↔ b ∈ other) {xs : List α} :
    Fresh key seen xs ↔ Fresh key other xs := by
  simp only [Fresh, h]

theorem fresh_append {xs ys : List α} :
    Fresh key seen (xs ++ ys) ↔ Fresh key seen xs ∧ Fresh key (xs.map key ++ seen) ys := by
  induction xs generalizing seen with
  | nil => simp
  | cons x rest ih =>
    rw [List.cons_append, fresh_cons, fresh_cons, ih, and_assoc]
    refine and_congr_right fun _ => and_congr_right fun _ => fresh_congr fun b => ?_
    simp only [List.map_cons, List.mem_append, List.mem_cons]
    tauto

end Fresh

/-! ## Walks that keep the first element under each name -/

namespace Schema

theorem distinct_eq_self {α : Type} {name : α → String} {seen : List String} {xs : List α}
    (h : Fresh name seen xs) : distinct name seen xs = xs := by
  induction xs generalizing seen with
  | nil => rfl
  | cons x rest ih =>
    obtain ⟨hx, hrest⟩ := fresh_cons.mp h
    rw [distinct, if_neg (by simpa using hx), ih hrest]

theorem mapFirst_eq_map {α : Type} {name : α → String} {f : α → α} {seen : List String}
    {xs : List α} (h : Fresh name seen xs) : mapFirst name f seen xs = xs.map f := by
  induction xs generalizing seen with
  | nil => rfl
  | cons x rest ih =>
    obtain ⟨hx, hrest⟩ := fresh_cons.mp h
    rw [mapFirst, if_neg (by simpa using hx), ih hrest, List.map_cons]

theorem bySource_eq_nil_iff {α : Type} {errors : List (Located α)} :
    bySource errors = [] ↔ errors = [] := by
  rw [bySource, ← List.length_eq_zero_iff, List.length_mergeSort, List.length_eq_zero_iff]

end Schema

namespace PathTemplate

theorem mem_firstOccurrences {seen names : List String} {x : String} :
    x ∈ firstOccurrences seen names ↔ x ∈ names ∧ x ∉ seen := by
  induction names generalizing seen with
  | nil => simp [firstOccurrences]
  | cons y rest ih =>
    by_cases hy : y ∈ seen
    · simp only [firstOccurrences, List.contains_iff_mem, hy, if_true, ih, List.mem_cons]
      constructor
      · exact fun h => ⟨Or.inr h.1, h.2⟩
      · rintro ⟨rfl | h, hx⟩
        · exact absurd hy hx
        · exact ⟨h, hx⟩
    · simp only [firstOccurrences, List.contains_iff_mem, hy, if_false, List.mem_cons, ih, not_or]
      by_cases hxy : x = y
      · simp [hxy, hy]
      · simp [hxy]

end PathTemplate

/-! ## Lists related position by position -/

theorem exists_of_mem_forall₂ {α β : Type} {r : α → β → Prop} {xs : List α} {ys : List β} {y : β}
    (h : List.Forall₂ r xs ys) (hy : y ∈ ys) : ∃ x ∈ xs, r x y := by
  induction h with
  | nil => cases hy
  | cons hr _ ih =>
    rcases List.mem_cons.mp hy with rfl | hrest
    · exact ⟨_, List.mem_cons_self, hr⟩
    · obtain ⟨x, hx, hxy⟩ := ih hrest
      exact ⟨x, List.mem_cons_of_mem _ hx, hxy⟩

theorem exists_of_mem_forall₂_left {α β : Type} {r : α → β → Prop} {xs : List α} {ys : List β}
    {x : α} (h : List.Forall₂ r xs ys) (hx : x ∈ xs) : ∃ y ∈ ys, r x y :=
  exists_of_mem_forall₂ h.flip hx

/-- What a relation gives for the elements of the lists replaces it. -/
theorem forall₂_imp_of_mem {α β : Type} {r q : α → β → Prop} {xs : List α} {ys : List β}
    (h : List.Forall₂ r xs ys) (hrq : ∀ x y, x ∈ xs → y ∈ ys → r x y → q x y) :
    List.Forall₂ q xs ys := by
  induction h with
  | nil => exact .nil
  | cons hr _ ih =>
    refine .cons (hrq _ _ List.mem_cons_self List.mem_cons_self hr) (ih fun x y hx hy => ?_)
    exact hrq x y (List.mem_cons_of_mem _ hx) (List.mem_cons_of_mem _ hy)

theorem forall₂_comp {α β γ : Type} {r : α → β → Prop} {q : β → γ → Prop} {p : α → γ → Prop}
    {xs : List α} {ys : List β} {zs : List γ} (h : List.Forall₂ r xs ys)
    (h' : List.Forall₂ q ys zs) (hp : ∀ x y z, r x y → q y z → p x z) : List.Forall₂ p xs zs := by
  induction h generalizing zs with
  | nil =>
    cases h'
    exact .nil
  | cons hr _ ih =>
    cases h' with
    | cons hq hrest => exact .cons (hp _ _ _ hr hq) (ih hrest)

theorem map_eq_of_forall₂ {α β γ : Type} {r : α → β → Prop} {f : α → γ} {g : β → γ}
    {xs : List α} {ys : List β} (h : List.Forall₂ r xs ys) (hfg : ∀ x y, r x y → f x = g y) :
    xs.map f = ys.map g := by
  induction h with
  | nil => rfl
  | cons hr _ ih => rw [List.map_cons, List.map_cons, hfg _ _ hr, ih]

/-! ## Steps that can fail -/

theorem bind_eq_ok_iff {ε α β : Type} {x : Except ε α} {f : α → Except ε β} {b : β} :
    x >>= f = .ok b ↔ ∃ a, x = .ok a ∧ f a = .ok b := by
  cases x with
  | error e =>
    constructor
    · intro h; cases h
    · rintro ⟨a, ha, -⟩; cases ha
  | ok a =>
    constructor
    · exact fun h => ⟨a, rfl, h⟩
    · rintro ⟨a', ha, h⟩
      cases ha
      exact h

theorem map_eq_ok_iff {ε α β : Type} {x : Except ε α} {f : α → β} {b : β} :
    x.map f = .ok b ↔ ∃ a, x = .ok a ∧ f a = b := by
  cases x with
  | error e =>
    constructor
    · intro h; cases h
    · rintro ⟨a, ha, -⟩; cases ha
  | ok a =>
    constructor
    · exact fun h => ⟨a, rfl, Except.ok.inj h⟩
    · rintro ⟨a', ha, rfl⟩
      cases ha
      rfl

/-- A repetition of a step succeeds exactly when every step does, with the results in order. -/
theorem mapM_eq_ok_iff {ε α β : Type} {f : α → Except ε β} {xs : List α} {ys : List β} :
    xs.mapM f = .ok ys ↔ List.Forall₂ (fun x y => f x = .ok y) xs ys := by
  induction xs generalizing ys with
  | nil =>
    rw [List.mapM_nil, List.forall₂_nil_left_iff]
    exact ⟨fun h => (Except.ok.inj h).symm, fun h => by rw [h]; rfl⟩
  | cons x rest ih =>
    rw [List.mapM_cons, List.forall₂_cons_left_iff]
    cases hx : f x with
    | error e =>
      constructor
      · intro h; cases h
      · rintro ⟨y, ys', hy, -⟩; cases hy
    | ok y =>
      cases hrest : rest.mapM f with
      | error e =>
        constructor
        · intro h; cases h
        · rintro ⟨y', ys', -, hys, -⟩
          rw [ih.mpr hys] at hrest
          cases hrest
      | ok zs =>
        have hzs : List.Forall₂ (fun x y => f x = .ok y) rest zs := ih.mp hrest
        constructor
        · intro h
          exact ⟨y, zs, rfl, hzs, (Except.ok.inj h).symm⟩
        · rintro ⟨y', ys', hy, hys, rfl⟩
          have hys' : zs = ys' := Except.ok.inj (hrest.symm.trans (ih.mpr hys))
          rw [Except.ok.inj hy, hys']
          rfl

/-- Every result of a repetition comes from a step on some element. -/
theorem exists_of_mem_mapM {ε α β : Type} {f : α → Except ε β} {xs : List α} {ys : List β} {y : β}
    (h : xs.mapM f = .ok ys) (hy : y ∈ ys) : ∃ x ∈ xs, f x = .ok y := by
  have hall := mapM_eq_ok_iff.mp h
  exact exists_of_mem_forall₂ (r := fun x y => f x = .ok y) hall hy

theorem exists_mapM_eq_ok {ε α β : Type} {f : α → Except ε β} {l : List α}
    (h : ∀ x ∈ l, ∃ y, f x = .ok y) : ∃ ys, l.mapM f = .ok ys := by
  induction l with
  | nil => exact ⟨[], rfl⟩
  | cons x rest ih =>
    obtain ⟨y, hy⟩ := h x List.mem_cons_self
    obtain ⟨ys, hys⟩ := ih fun z hz => h z (List.mem_cons_of_mem _ hz)
    exact ⟨y :: ys, mapM_eq_ok_iff.mpr (.cons hy (mapM_eq_ok_iff.mp hys))⟩

/-- A repetition of an optional step is there exactly when every step is, with the results in
order. -/
theorem mapM_eq_some_iff {α β : Type} {f : α → Option β} {xs : List α} {ys : List β} :
    xs.mapM f = some ys ↔ List.Forall₂ (fun x y => f x = some y) xs ys := by
  induction xs generalizing ys with
  | nil =>
    rw [List.mapM_nil, List.forall₂_nil_left_iff]
    exact ⟨fun h => (Option.some.inj h).symm, fun h => by rw [h]; rfl⟩
  | cons x rest ih =>
    rw [List.mapM_cons, List.forall₂_cons_left_iff]
    constructor
    · intro h
      obtain ⟨y, hy, h⟩ := Option.bind_eq_some_iff.mp h
      obtain ⟨zs, hzs, h⟩ := Option.bind_eq_some_iff.mp h
      exact ⟨y, zs, hy, ih.mp hzs, (Option.some.inj h).symm⟩
    · rintro ⟨y, zs, hy, hzs, rfl⟩
      exact Option.bind_eq_some_iff.mpr
        ⟨y, hy, Option.bind_eq_some_iff.mpr ⟨zs, ih.mpr hzs, rfl⟩⟩

theorem exists_mapM_eq_some_iff {α β : Type} {f : α → Option β} {xs : List α} :
    (∃ ys, xs.mapM f = some ys) ↔ ∀ x ∈ xs, ∃ y, f x = some y := by
  constructor
  · rintro ⟨ys, h⟩ x hx
    obtain ⟨y, -, hy⟩ := exists_of_mem_forall₂_left (mapM_eq_some_iff.mp h) hx
    exact ⟨y, hy⟩
  · intro h
    induction xs with
    | nil => exact ⟨[], rfl⟩
    | cons x rest ih =>
      obtain ⟨hx, hrest⟩ := List.forall_mem_cons.mp h
      obtain ⟨y, hy⟩ := hx
      obtain ⟨ys, hys⟩ := ih hrest
      exact ⟨y :: ys, mapM_eq_some_iff.mpr (.cons hy (mapM_eq_some_iff.mp hys))⟩

end EndpointDsl
