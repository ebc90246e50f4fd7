import EndpointDsl.Proofs.Name.Styles

/-!
Where the words of a name end.

Two characters of words that stand next to each other are in two words only if the second one is a
capital, and then if the first one is none or a lower-case character follows the second.  The rule
looks at three characters, so it is enough to see how one more character in front changes the words.
-/

namespace EndpointDsl
namespace Casing

/-- A word ends between `c` and `d`, with `rest` behind them. -/
def Boundary (c d : Char) (rest : List Char) : Prop :=
  d.isUpper = true ∧ (isLow c = true ∨ c.isUpper = true ∧ ∃ e ∈ rest.head?, isLow e = true)

/-- A word ends with the last of the characters in front: the first few words hold all that these
characters have for words. -/
def EndsWord (words : List String) (front : List Char) : Prop :=
  ∃ done later, words = done ++ later ∧
    String.join done = lower (String.ofList (front.filter inWord))

/-- The first few words hold the letters. -/
def HoldsFirst (words : List (List Char)) (letters : List Char) : Prop :=
  ∃ done later, words = done ++ later ∧ done.flatten = letters

section

variable {c d x : Char} {cs front rest letters w : List Char} {ws : List (List Char)}

theorem separates_iff : Separates c ↔ inWord c = false := by
  rw [Separates, inWord, Bool.or_eq_false_iff]

/-! ## One more character in front -/

theorem rawWords_before_separator (hc : inWord c = true) (hd : Separates d) (rest : List Char) :
    rawWords (c :: d :: rest) = [c] :: rawWords (d :: rest) := by
  have hsole : rawWords [c] = [[c]] := by
    rw [rawWords_eq_singleton_iff]
    rcases Bool.or_eq_true_iff.mp hc with hlow | hupper
    · exact .low (List.cons_ne_nil _ _) (List.forall_mem_singleton.mpr hlow)
    · exact .capitals (List.cons_ne_nil _ _) (List.forall_mem_singleton.mpr hupper)
  rw [rawWords_separator hd, ← List.singleton_append, rawWords_append_separator hd, hsole]
  rfl

theorem rawWords_apart (h : Boundary c d rest) :
    rawWords (c :: d :: rest) = [c] :: rawWords (d :: rest) := by
  obtain ⟨hd, hc | ⟨hc, e, he, hlow⟩⟩ := h
  · rw [rawWords, if_pos hc, List.takeWhile_cons_of_neg (not_isLow_of_isUpper hd),
      List.dropWhile_cons_of_neg (not_isLow_of_isUpper hd)]
  · obtain ⟨more, rfl⟩ := List.head?_eq_some_iff.mp he
    have hnot : ¬ e.isUpper = true := fun hupper => not_isLow_of_isUpper hupper hlow
    rw [rawWords, if_neg (not_isLow_of_isUpper hc), if_pos hc]
    rw [rawWords, if_neg (not_isLow_of_isUpper hd), if_pos hd]
    simp [hd, hnot, hlow]

theorem rawWords_joined (hc : inWord c = true) (hd : inWord d = true) (h : ¬ Boundary c d rest) :
    rawWords (c :: d :: rest) = (rawWords (d :: rest)).modifyHead (c :: ·) := by
  by_cases hlow : isLow d = true
  · have hd' : ¬ d.isUpper = true := fun hupper => not_isLow_of_isUpper hupper hlow
    rw [rawWords.eq_def (d :: rest)]
    by_cases hc' : isLow c = true
    · rw [rawWords, if_pos hc']
      simp [hlow]
    · have hupper : c.isUpper = true := by simpa [inWord, hc'] using hc
      rw [rawWords, if_neg hc', if_pos hupper]
      simp [hlow, hd']
  · have hupper : d.isUpper = true := by simpa [inWord, hlow] using hd
    have hc' : ¬ isLow c = true := fun hc' => h ⟨hupper, Or.inl hc'⟩
    have hcapital : c.isUpper = true := by simpa [inWord, hc'] using hc
    have hhead : ∀ e ∈ rest.head?, ¬ isLow e = true := fun e he hlow' =>
      h ⟨hupper, Or.inr ⟨hcapital, e, he, hlow'⟩⟩
    rw [rawWords.eq_def (c :: d :: rest), rawWords.eq_def (d :: rest)]
    simp only [if_neg hc', if_pos hcapital, if_neg hlow, if_pos hupper,
      List.takeWhile_cons_of_pos hupper, List.dropWhile_cons_of_pos hupper]
    cases hlows : (rest.dropWhile Char.isUpper).takeWhile isLow with
    | nil => rfl
    | cons low lows =>
      -- The run of capitals is longer than `c` and `d`, so its last one is behind both.
      have hmany : rest.takeWhile Char.isUpper ≠ [] := by
        intro hnone
        have hrest := List.takeWhile_append_dropWhile (p := Char.isUpper) (l := rest)
        rw [hnone, List.nil_append] at hrest
        rw [hrest] at hlows
        cases rest with
        | nil => cases hlows
        | cons e more =>
          rw [List.takeWhile_cons_of_neg (hhead e rfl)] at hlows
          cases hlows
      obtain ⟨u, us, hus⟩ := List.exists_cons_of_ne_nil hmany
      rw [hus]
      rfl

/-- A character of a word stands alone in front of the words behind it, or in the first of them. -/
theorem rawWords_cons_cases (hc : inWord c = true) (hne : rawWords cs ≠ []) :
    rawWords (c :: cs) = [c] :: rawWords cs ∨
      rawWords (c :: cs) = (rawWords cs).modifyHead (c :: ·) := by
  cases cs with
  | nil => exact absurd (by rw [rawWords]) hne
  | cons d rest =>
    by_cases hd : inWord d = true
    · by_cases h : Boundary c d rest
      · exact Or.inl (rawWords_apart h)
      · exact Or.inr (rawWords_joined hc hd h)
    · rw [Bool.not_eq_true, ← separates_iff] at hd
      exact Or.inl (rawWords_before_separator hc hd rest)

/-! ## Words in front of a place -/

theorem holdsFirst_singleton : HoldsFirst ([x] :: ws) (x :: letters) ↔ HoldsFirst ws letters := by
  constructor
  · rintro ⟨done, later, hwords, hletters⟩
    cases done with
    | nil => cases hletters
    | cons w done =>
      obtain ⟨rfl, rfl⟩ := List.cons.inj hwords
      exact ⟨done, later, rfl, (List.cons.inj hletters).2⟩
  · rintro ⟨done, later, rfl, rfl⟩
    exact ⟨[x] :: done, later, rfl, rfl⟩

theorem holdsFirst_modifyHead (hws : ws ≠ []) (hletters : letters ≠ []) :
    HoldsFirst (ws.modifyHead (x :: ·)) (x :: letters) ↔ HoldsFirst ws letters := by
  obtain ⟨w, more, rfl⟩ := List.exists_cons_of_ne_nil hws
  constructor
  · rintro ⟨done, later, hwords, hheld⟩
    cases done with
    | nil => cases hheld
    | cons first done =>
      obtain ⟨rfl, rfl⟩ := List.cons.inj hwords
      exact ⟨w :: done, later, rfl, (List.cons.inj hheld).2⟩
  · rintro ⟨done, later, hwords, rfl⟩
    cases done with
    | nil => exact absurd rfl hletters
    | cons first done =>
      obtain ⟨rfl, rfl⟩ := List.cons.inj hwords
      exact ⟨(x :: w) :: done, later, rfl, rfl⟩

theorem rawWords_ne_nil (hc : c ∈ cs) (h : inWord c = true) : rawWords cs ≠ [] := by
  intro hnil
  have hflat := flatten_rawWords cs
  rw [hnil] at hflat
  exact List.filter_eq_nil_iff.mp hflat.symm c hc h

theorem holdsFirst_at_start (hc : inWord c = true) (hd : inWord d = true) :
    HoldsFirst (rawWords (c :: d :: rest)) [c] ↔ Boundary c d rest := by
  have hnone : HoldsFirst (rawWords (d :: rest)) [] := ⟨[], _, rfl, rfl⟩
  by_cases h : Boundary c d rest
  · rw [rawWords_apart h, holdsFirst_singleton]
    exact iff_of_true hnone h
  · rw [rawWords_joined hc hd h]
    refine iff_of_false ?_ h
    rintro ⟨done, later, hwords, hheld⟩
    -- The first word holds `c` and at least one more character.
    obtain ⟨w, more, hw⟩ := List.exists_cons_of_ne_nil (rawWords_ne_nil List.mem_cons_self hd)
    have hform : WordForm w := wordForm_of_mem_rawWords (hw ▸ List.mem_cons_self)
    rw [hw] at hwords
    cases done with
    | nil => cases hheld
    | cons first done =>
      obtain ⟨rfl, -⟩ := List.cons.inj hwords
      have htail := (List.cons.inj hheld).2
      exact hform.ne_nil (List.append_eq_nil_iff.mp htail).1

/-- Between two characters of words a word ends exactly at a boundary, whatever is in front. -/
theorem holdsFirst_iff_boundary (hc : inWord c = true) (hd : inWord d = true) (front : List Char) :
    HoldsFirst (rawWords (front ++ c :: d :: rest)) ((front ++ [c]).filter inWord) ↔
      Boundary c d rest := by
  induction front with
  | nil =>
    rw [List.nil_append, List.nil_append, List.filter_cons_of_pos hc]
    exact holdsFirst_at_start hc hd
  | cons x front ih =>
    have hmem : c ∈ front ++ c :: d :: rest := by simp
    have hletters : (front ++ [c]).filter inWord ≠ [] := by
      intro hnil
      exact List.filter_eq_nil_iff.mp hnil c (by simp) hc
    rw [List.cons_append, List.cons_append]
    by_cases hx : inWord x = true
    · rw [List.filter_cons_of_pos hx, ← ih]
      have hne := rawWords_ne_nil hmem hc
      rcases rawWords_cons_cases hx hne with h | h
      · rw [h, holdsFirst_singleton]
      · rw [h, holdsFirst_modifyHead hne hletters]
    · rw [List.filter_cons_of_neg hx, ← ih]
      rw [Bool.not_eq_true, ← separates_iff] at hx
      rw [rawWords_separator hx]

/-! ## Words in lower case -/

/-- The words in lower case hold the letters of the words in lower case. -/
theorem join_map_toLower (ws : List (List Char)) :
    String.join (ws.map fun w => String.ofList (w.map Char.toLower)) =
      lower (String.ofList ws.flatten) := by
  rw [← String.toList_inj, String.toList_join, lower, String.toList_ofList, String.toList_ofList,
    List.flatMap_map, List.map_flatten, List.flatMap_def]
  simp only [String.toList_ofList]

theorem endsWord_iff_holdsFirst {n : String} (hfront : front <+: n.toList) :
    EndsWord (words n) front ↔ HoldsFirst (rawWords n.toList) (front.filter inWord) := by
  constructor
  · rintro ⟨done, later, hwords, hjoin⟩
    obtain ⟨first, rest, hraw, rfl, -⟩ := List.map_eq_append_iff.mp hwords
    refine ⟨first, rest, hraw, ?_⟩
    rw [join_map_toLower] at hjoin
    -- Both are the letters that the name starts with, and there are equally many of them.
    have hlower : first.flatten.map Char.toLower = (front.filter inWord).map Char.toLower := by
      have hsame := congrArg String.toList hjoin
      simpa only [lower, String.toList_ofList] using hsame
    have hlength : first.flatten.length = (front.filter inWord).length := by
      simpa only [List.length_map] using congrArg List.length hlower
    have hall : first.flatten <+: n.toList.filter inWord := by
      rw [← flatten_rawWords, hraw, List.flatten_append]
      exact List.prefix_append _ _
    exact (List.prefix_of_prefix_length_le hall (hfront.filter inWord) hlength.le).eq_of_length
      hlength
  · rintro ⟨first, rest, hraw, hheld⟩
    refine ⟨_, _, by rw [words, hraw, List.map_append], ?_⟩
    rw [join_map_toLower, hheld]

end

/-- The words of a name are lower-case letters and digits, hold all letters and digits of the name
in order, are parted by any other character, and between letters and digits end exactly at the
boundaries. -/
theorem words_end_at_boundaries (n : String) :
    (∀ w ∈ words n, LowWord w) ∧
    String.join (words n) = lower (String.ofList (n.toList.filter inWord)) ∧
    (∀ front c rest, n.toList = front ++ c :: rest → inWord c = false →
      words n = words (String.ofList front) ++ words (String.ofList rest)) ∧
    ∀ front c d rest, n.toList = front ++ c :: d :: rest → inWord c = true → inWord d = true →
      (EndsWord (words n) (front ++ [c]) ↔ Boundary c d rest) := by
  refine ⟨fun w hw => lowWord_of_mem_words hw, ?_, ?_, ?_⟩
  · rw [words, join_map_toLower, flatten_rawWords]
  · intro front c rest hn hc
    rw [words, hn, rawWords_append_separator (separates_iff.mpr hc), List.map_append, words, words,
      String.toList_ofList, String.toList_ofList]
  · intro front c d rest hn hc hd
    have hfront : front ++ [c] <+: n.toList := ⟨d :: rest, by rw [hn]; simp⟩
    rw [endsWord_iff_holdsFirst hfront, hn, holdsFirst_iff_boundary hc hd]

/-- The last of the capitals starts the word of what follows it, and the others are a word of their
own. -/
theorem status_words_end :
    "HTTPStatus-2X".toList = "HTTPStatus".toList ++ '-' :: "2X".toList ∧
      "HTTPStatus-2X".toList = "HTT".toList ++ 'P' :: 'S' :: "tatus-2X".toList ∧
      "HTTPStatus-2X".toList = [] ++ 'H' :: 'T' :: "TPStatus-2X".toList ∧
      words "HTTPStatus-2X" =
        words (String.ofList "HTTPStatus".toList) ++ words (String.ofList "2X".toList) ∧
      EndsWord (words "HTTPStatus-2X") ("HTT".toList ++ ['P']) ∧
      ¬ EndsWord (words "HTTPStatus-2X") ([] ++ ['H']) := by
  obtain ⟨-, -, hparted, hends⟩ := words_end_at_boundaries "HTTPStatus-2X"
  have hdash : "HTTPStatus-2X".toList = "HTTPStatus".toList ++ '-' :: "2X".toList := by decide
  have hlast : "HTTPStatus-2X".toList = "HTT".toList ++ 'P' :: 'S' :: "tatus-2X".toList := by decide
  have hfirst : "HTTPStatus-2X".toList = [] ++ 'H' :: 'T' :: "TPStatus-2X".toList := by decide
  refine ⟨hdash, hlast, hfirst, hparted _ _ _ hdash rfl, ?_, ?_⟩
  · exact (hends _ _ _ _ hlast rfl rfl).mpr ⟨rfl, Or.inr ⟨rfl, 't', rfl, rfl⟩⟩
  · rw [hends _ _ _ _ hfirst rfl rfl]
    rintro ⟨-, hlow | ⟨-, e, he, hlow⟩⟩
    · cases hlow
    · cases he
      cases hlow

end Casing
end EndpointDsl
