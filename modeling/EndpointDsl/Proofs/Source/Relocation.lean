import EndpointDsl.Source.SyntaxError
import Mathlib.Data.List.Nodup

/-!
Places moved by a map.

No step of a compilation looks at a place: it copies the places of the tokens into what it makes.
So it makes the same of tokens whose places are moved, with every place moved likewise.  Two lists
of tokens with the same lexemes are one and the same list up to such a move, as long as the first
has no place twice.
-/

namespace EndpointDsl

variable {f : Location → Location}

def Located.relocate {α : Type} (f : Location → Location) (x : Located α) : Located α :=
  { x with location := f x.location }

def Token.relocate (f : Location → Location) (t : Token) : Token :=
  { t with location := f t.location }

@[simp] theorem Located.cause_relocate {α : Type} (x : Located α) :
    (x.relocate f).cause = x.cause := rfl

@[simp] theorem Located.location_relocate {α : Type} (x : Located α) :
    (x.relocate f).location = f x.location := rfl

@[simp] theorem Token.lexeme_relocate (t : Token) : (t.relocate f).lexeme = t.lexeme := rfl

/-- A cause is not touched by a move, so that a located cause stays only if its place does. -/
theorem Located.relocate_eq_self_iff {α : Type} {x : Located α} :
    x.relocate f = x ↔ f x.location = x.location := by
  obtain ⟨cause, location⟩ := x
  simp [Located.relocate]

/-! ## Steps that can fail -/

section

variable {ε α β : Type} {move : α → α} {last : β → β} {x : Except (Located ε) α}
  {g : α → Except (Located ε) β}

/-- What a step gives, with its places moved.  `move` moves the places of a value. -/
def relocateResult (f : Location → Location) (move : α → α) :
    Except (Located ε) α → Except (Located ε) α
  | .ok a => .ok (move a)
  | .error e => .error (e.relocate f)

theorem bind_relocateResult {k : α → Except (Located ε) β}
    (h : ∀ a, k (move a) = relocateResult f last (g a)) :
    relocateResult f move x >>= k = relocateResult f last (x >>= g) := by
  cases x with
  | error e => rfl
  | ok a => exact h a

theorem mapM_relocateResult {m : α → α} (h : ∀ a, g (m a) = relocateResult f last (g a))
    (as : List α) : (as.map m).mapM g = relocateResult f (List.map last) (as.mapM g) := by
  induction as with
  | nil => rfl
  | cons a as ih =>
    rw [List.map_cons, List.mapM_cons, List.mapM_cons, h, ih]
    exact bind_relocateResult fun b => bind_relocateResult fun bs => rfl

end

/-! ## Places that a move leaves alone -/

/-- A map that moves every place but the given ones. -/
def moveOthers (places : List Location) (l : Location) : Location :=
  if l ∈ places then l else { l with offset := l.offset + 1 }

theorem moveOthers_eq_self_iff {places : List Location} {l : Location} :
    moveOthers places l = l ↔ l ∈ places := by
  by_cases h : l ∈ places
  · simp [moveOthers, h]
  · obtain ⟨unit, line, column, offset⟩ := l
    simp [moveOthers, h]

/-- What a move of all other places leaves alone is at one of the given places. -/
theorem mem_of_map_relocate {α : Type} {places : List Location} {errors : List (Located α)}
    (h : errors.map (Located.relocate (moveOthers places)) = errors) {e : Located α}
    (he : e ∈ errors) : e.location ∈ places := by
  have hid : errors.map (Located.relocate (moveOthers places)) = errors.map id := by
    rw [h, List.map_id]
  have hself := List.map_inj_left.mp hid e he
  exact moveOthers_eq_self_iff.mp (Located.relocate_eq_self_iff.mp hself)

/-! ## Lists of tokens -/

namespace TokenList

def relocate (f : Location → Location) (list : TokenList) : TokenList :=
  { tokens := list.tokens.map (·.relocate f), stop := f list.stop }

/-- The places of the tokens, and the end of the text. -/
def places (list : TokenList) : List Location := list.tokens.map (·.location) ++ [list.stop]

theorem relocate_moveOthers (list : TokenList) :
    list.relocate (moveOthers list.places) = list := by
  have hstop : moveOthers list.places list.stop = list.stop :=
    moveOthers_eq_self_iff.mpr (List.mem_append_right _ (List.mem_singleton_self _))
  have htokens : list.tokens.map (·.relocate (moveOthers list.places)) = list.tokens := by
    refine (List.map_congr_left fun t ht => ?_).trans (List.map_id _)
    have hplace : moveOthers list.places t.location = t.location :=
      moveOthers_eq_self_iff.mpr (List.mem_append_left _ (List.mem_map_of_mem ht))
    rw [Token.relocate, hplace, id]
  rw [relocate, hstop, htokens]

end TokenList

/-- A list without repetitions is mapped to any list of its length. -/
theorem exists_map_eq {α : Type} [DecidableEq α] {xs ys : List α} (hxs : xs.Nodup)
    (hlength : xs.length = ys.length) : ∃ f : α → α, xs.map f = ys := by
  induction xs generalizing ys with
  | nil => exact ⟨id, by simpa using (List.length_eq_zero_iff.mp hlength.symm).symm⟩
  | cons x xs ih =>
    cases ys with
    | nil => cases hlength
    | cons y ys =>
      rw [List.nodup_cons] at hxs
      obtain ⟨f, hf⟩ := ih hxs.2 (Nat.succ.inj hlength)
      refine ⟨Function.update f x y, ?_⟩
      have hrest : xs.map (Function.update f x y) = xs.map f := by
        refine List.map_congr_left fun z hz => Function.update_of_ne ?_ y f
        intro hzx
        exact hxs.1 (hzx ▸ hz)
      rw [List.map_cons, Function.update_self, hrest, hf]

/-- Tokens are determined by their lexemes and their places. -/
theorem tokens_eq_of_maps {ts us : List Token}
    (hlexemes : ts.map (·.lexeme) = us.map (·.lexeme))
    (hplaces : ts.map (·.location) = us.map (·.location)) : ts = us := by
  induction ts generalizing us with
  | nil => exact (List.map_eq_nil_iff.mp hlexemes.symm).symm
  | cons t ts ih =>
    cases us with
    | nil => cases hlexemes
    | cons u us =>
      rw [List.map_cons, List.map_cons, List.cons.injEq] at hlexemes hplaces
      have ht : t = u := by
        obtain ⟨lexeme, location⟩ := t
        exact congrArg₂ Token.mk hlexemes.1 hplaces.1
      rw [ht, ih hlexemes.2 hplaces.2]

theorem TokenList.exists_relocate {list other : TokenList} (hplaces : list.places.Nodup)
    (hlexemes : list.tokens.map (·.lexeme) = other.tokens.map (·.lexeme)) :
    ∃ f, list.relocate f = other ∧ list.places.map f = other.places := by
  have hlength : list.tokens.length = other.tokens.length := by
    simpa using congrArg List.length hlexemes
  have hcount : list.places.length = other.places.length := by simp [places, hlength]
  obtain ⟨f, hf⟩ := exists_map_eq hplaces hcount
  refine ⟨f, ?_, hf⟩
  rw [places, places, List.map_append] at hf
  obtain ⟨htokens, hstop⟩ := List.append_inj hf (by simp [hlength])
  have hmoved : list.tokens.map (·.relocate f) = other.tokens := by
    refine tokens_eq_of_maps ?_ ?_
    · rw [List.map_map, ← hlexemes]
      rfl
    · rw [← htokens, List.map_map, List.map_map]
      rfl
  rw [relocate, hmoved, (List.cons.inj hstop).1]

end EndpointDsl
