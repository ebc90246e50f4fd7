import EndpointDsl.Text.Lines
import Mathlib.Data.List.TakeWhile

/-!
The characters of a text, of its lines and of what is left after trimming.

Cutting a text into lines loses the characters that end lines and no others, and trimming loses
none but those that it looks for.
-/

namespace EndpointDsl
namespace Text

/-! ## Lines -/

theorem linesFrom_ne_nil (line cs : List Char) (h : line ≠ [] ∨ cs ≠ []) :
    linesFrom line cs ≠ [] := by
  fun_induction linesFrom line cs with
  | case1 line hline => simp_all
  | case2 line hline => exact List.cons_ne_nil _ _
  | case3 line rest ih => exact List.cons_ne_nil _ _
  | case4 line c rest hcr hend ih => exact List.cons_ne_nil _ _
  | case5 line c rest hcr hend ih => exact ih (Or.inl (List.cons_ne_nil _ _))

theorem mem_of_mem_linesFrom {c : Char} {line l cs : List Char} (hl : l ∈ linesFrom line cs)
    (hc : c ∈ l) : c ∈ line ∨ c ∈ cs := by
  fun_induction linesFrom line cs with
  | case1 line hline => cases hl
  | case2 line hline =>
    obtain rfl := List.mem_singleton.mp hl
    exact Or.inl (List.mem_reverse.mp hc)
  | case3 line rest ih =>
    rcases List.mem_cons.mp hl with rfl | hl
    · exact Or.inl (List.mem_reverse.mp hc)
    · have hrest := (ih hl).resolve_left List.not_mem_nil
      exact Or.inr (List.mem_cons_of_mem _ (List.mem_cons_of_mem _ hrest))
  | case4 line d rest hcr hend ih =>
    rcases List.mem_cons.mp hl with rfl | hl
    · exact Or.inl (List.mem_reverse.mp hc)
    · exact Or.inr (List.mem_cons_of_mem _ ((ih hl).resolve_left List.not_mem_nil))
  | case5 line d rest hcr hend ih =>
    rcases ih hl with hmem | hmem
    · rcases List.mem_cons.mp hmem with rfl | hmem
      · exact Or.inr List.mem_cons_self
      · exact Or.inl hmem
    · exact Or.inr (List.mem_cons_of_mem _ hmem)

theorem mem_linesFrom {c : Char} {line cs : List Char} (hc : isLineEnd c = false)
    (h : c ∈ line ∨ c ∈ cs) : ∃ l ∈ linesFrom line cs, c ∈ l := by
  fun_induction linesFrom line cs with
  | case1 line hline => simp_all
  | case2 line hline =>
    have hmem : c ∈ line := h.resolve_right List.not_mem_nil
    exact ⟨_, List.mem_singleton_self _, List.mem_reverse.mpr hmem⟩
  | case3 line rest ih =>
    rcases h with h | h
    · exact ⟨_, List.mem_cons_self, List.mem_reverse.mpr h⟩
    · have hrest : c ∈ rest := by
        rcases List.mem_cons.mp h with rfl | h
        · cases hc
        · refine (List.mem_cons.mp h).resolve_left ?_
          rintro rfl
          cases hc
      obtain ⟨l, hl, hmem⟩ := ih (Or.inr hrest)
      exact ⟨l, List.mem_cons_of_mem _ hl, hmem⟩
  | case4 line d rest hcr hend ih =>
    rcases h with h | h
    · exact ⟨_, List.mem_cons_self, List.mem_reverse.mpr h⟩
    · have hrest : c ∈ rest := by
        refine (List.mem_cons.mp h).resolve_left ?_
        rintro rfl
        rw [hend] at hc
        cases hc
      obtain ⟨l, hl, hmem⟩ := ih (Or.inr hrest)
      exact ⟨l, List.mem_cons_of_mem _ hl, hmem⟩
  | case5 line d rest hcr hend ih =>
    refine ih ?_
    rcases h with h | h
    · exact Or.inl (List.mem_cons_of_mem d h)
    · rcases List.mem_cons.mp h with rfl | h
      · exact Or.inl List.mem_cons_self
      · exact Or.inr h

/-! ## Trimming -/

theorem trimChars_ne_nil {p : Char → Bool} {c : Char} {cs : List Char} (h : p c = false) :
    trimChars p (c :: cs) ≠ [] := by
  have hnot : ¬ p c = true := by rw [h]; exact Bool.false_ne_true
  rw [trimChars, List.dropWhile_cons_of_neg hnot]
  -- The first character is the last of the reversed text, and stops the second walk too.
  intro hempty
  rw [List.reverse_eq_nil_iff, List.dropWhile_eq_nil_iff] at hempty
  exact hnot (hempty c (List.mem_reverse.mpr List.mem_cons_self))

theorem trimChars_subset (p : Char → Bool) (cs : List Char) : trimChars p cs ⊆ cs := by
  intro c hc
  have hfront := List.mem_reverse.mp ((List.dropWhile_sublist p).subset (List.mem_reverse.mp hc))
  exact (List.dropWhile_sublist p).subset hfront

theorem mem_dropWhile {p : Char → Bool} {c : Char} {cs : List Char} (hc : p c = false)
    (h : c ∈ cs) : c ∈ cs.dropWhile p := by
  rw [← @List.takeWhile_append_dropWhile _ p cs, List.mem_append] at h
  refine h.resolve_left fun htake => ?_
  have hp := List.mem_takeWhile_imp htake
  rw [hc] at hp
  cases hp

theorem mem_trimChars {p : Char → Bool} {c : Char} {cs : List Char} (hc : p c = false)
    (h : c ∈ cs) : c ∈ trimChars p cs := by
  refine List.mem_reverse.mpr (mem_dropWhile hc (List.mem_reverse.mpr ?_))
  exact mem_dropWhile hc h

end Text
end EndpointDsl
