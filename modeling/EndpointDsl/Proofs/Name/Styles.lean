import EndpointDsl.Proofs.Name.Words
import EndpointDsl.Schema.Rules.Member

/-!
Laws of the casing styles.

Snake case and kebab case put a separator between the words of a name, so the words are found again
and any style can be applied to them.  In capitals the words may fall into smaller ones, because
digits count as lower-case characters there too.  The smaller words stay as they are.
-/

namespace EndpointDsl
namespace Casing

/-! ## Words in lower case -/

/-- A word as it is handed to a style. -/
structure LowWord (w : String) : Prop where
  ne_nil : w.toList ≠ []
  low : ∀ c ∈ w.toList, isLow c = true

section

variable {c : Char} {w n separator : String} {texts ws : List String}

theorem toLower_eq_of_isLow (h : isLow c = true) : c.toLower = c :=
  Char.toLower_eq_of_not_isUpper fun hupper => not_isLow_of_isUpper hupper h

theorem isLow_toLower (h : inWord c = true) : isLow c.toLower = true := by
  rcases Bool.or_eq_true_iff.mp h with hlow | hupper
  · rwa [toLower_eq_of_isLow hlow]
  · rw [isLow, Char.isLower_toLower_eq_isAlpha, Char.isAlpha, hupper]
    rfl

theorem lowWord_of_mem_words (h : w ∈ words n) : LowWord w := by
  obtain ⟨r, hr, rfl⟩ := List.mem_map.mp h
  constructor <;> rw [String.toList_ofList]
  · exact mt List.map_eq_nil_iff.mp (wordForm_of_mem_rawWords hr).ne_nil
  · exact List.forall_mem_map.mpr fun c hc => isLow_toLower ((mem_of_mem_rawWords hr hc).2)

/-- A text in lower case. -/
def lower (text : String) : String := String.ofList (text.toList.map Char.toLower)

theorem lower_upper (text : String) : lower (upper text) = lower text := by
  rw [lower, upper, String.toList_ofList, List.map_map]
  exact congrArg String.ofList (List.map_congr_left fun c _ => Char.toLower_toUpper_eq_toLower c)

theorem LowWord.lower_eq (h : LowWord w) : lower w = w := by
  rw [lower, List.map_congr_left fun c hc => toLower_eq_of_isLow (h.low c hc), List.map_id',
    String.ofList_toList]

theorem LowWord.words_eq (h : LowWord w) : words w = [w] := by
  rw [words, rawWords_eq_singleton_iff.mpr (.low h.ne_nil h.low), List.map_singleton]
  exact congrArg ([·]) h.lower_eq

theorem flatMap_words (h : ∀ w ∈ ws, LowWord w) : ws.flatMap words = ws := by
  rw [List.flatMap_congr fun w hw => (h w hw).words_eq, List.flatMap_singleton']

/-! ## Words with separators -/

/-- The words of texts with separators between them are those of the texts. -/
theorem words_intercalate (hseparator : separator.toList = [c]) (hc : Separates c) :
    words (String.intercalate separator texts) = texts.flatMap words := by
  have hraw : rawWords (String.intercalate separator texts).toList =
      texts.flatMap fun t => rawWords t.toList := by
    induction texts with
    | nil => rw [String.intercalate_nil, String.toList_empty, rawWords]; rfl
    | cons first rest ih =>
      cases rest with
      | nil => simp
      | cons second others =>
        rw [String.intercalate_cons_cons, String.toList_append, String.toList_append, hseparator,
          List.append_assoc, List.singleton_append, rawWords_append_separator hc, ih]
        rfl
  rw [words, hraw, List.map_flatMap]
  rfl

/-- Changing every character goes through separators. -/
theorem ofList_map_intercalate (f : Char → Char) (separator : String) (texts : List String) :
    String.ofList ((String.intercalate separator texts).toList.map f) =
      String.intercalate (String.ofList (separator.toList.map f))
        (texts.map fun t => String.ofList (t.toList.map f)) := by
  induction texts with
  | nil => rfl
  | cons first rest ih =>
    cases rest with
    | nil => simp
    | cons second others =>
      rw [List.map_cons] at ih
      rw [List.map_cons, List.map_cons, String.intercalate_cons_cons, String.intercalate_cons_cons,
        ← ih]
      simp only [String.toList_append, List.map_append, String.ofList_append]

end

/-! ## Styles -/

section

variable {s : Style} {m n : String}

theorem apply_of_words_eq_nil (h : words n = []) : s.apply n = n := by
  rw [Style.apply, h]

theorem apply_eq_join (h : words n ≠ []) : s.apply n = s.join (words n) := by
  unfold Style.apply
  split
  · next hnil => exact absurd hnil h
  · rfl

/-- Names with the same words, if they have any, are spelt alike. -/
theorem apply_congr (h : words m = words n) (hne : words n ≠ []) (s : Style) :
    s.apply m = s.apply n := by
  rw [apply_eq_join hne, apply_eq_join (h ▸ hne), h]

/-- The styles that only put a separator between the words. -/
theorem words_apply {c : Style} (hc : c = .snake ∨ c = .kebab) (n : String) :
    words (c.apply n) = words n := by
  by_cases hnil : words n = []
  · rw [apply_of_words_eq_nil hnil]
  · have hwords := flatMap_words fun w (hw : w ∈ words n) => lowWord_of_mem_words hw
    rw [apply_eq_join hnil]
    have hunderscore : ∀ texts, words (String.intercalate "_" texts) = texts.flatMap words :=
      fun _ => @words_intercalate '_' "_" _ rfl ⟨rfl, rfl⟩
    have hdash : ∀ texts, words (String.intercalate "-" texts) = texts.flatMap words :=
      fun _ => @words_intercalate '-' "-" _ rfl ⟨rfl, rfl⟩
    rcases hc with rfl | rfl
    · exact (hunderscore _).trans hwords
    · exact (hdash _).trans hwords

end

/-! ## Words in capitals -/

/-- The text of a word in capitals falls into no smaller words: it has no digits, or nothing but
digits after its first character. -/
def WholeInCapitals (w : String) : Prop :=
  (∀ c ∈ w.toList, c.isLower = true) ∨ ∀ c ∈ w.toList.tail, c.isDigit = true

instance : DecidablePred WholeInCapitals := fun w =>
  @instDecidableOr _ _ (List.decidableBAll _ w.toList) (List.decidableBAll _ w.toList.tail)

section

variable {c : Char} {w u : String}

theorem isUpper_toUpper_of_isLow (h : isLow c = true) :
    c.toUpper.isUpper = true ↔ c.isLower = true := by
  rw [Char.isUpper_toUpper_eq_isAlpha, Char.isAlpha,
    Bool.eq_false_iff.mpr fun hupper => not_isLow_of_isUpper hupper h, Bool.false_or]

theorem not_isDigit_of_isLower (h : c.isLower = true) : ¬ c.isDigit = true := by
  simp only [Char.isLower, Char.isDigit, Bool.and_eq_true, decide_eq_true_eq, ge_iff_le,
    UInt32.le_iff_toNat_le] at h ⊢
  have ha : 'a'.val.toNat = 97 := rfl
  have h9 : '9'.val.toNat = 57 := rfl
  omega

theorem isLow_toUpper_of_isLow (h : isLow c = true) :
    isLow c.toUpper = true ↔ c.isDigit = true := by
  by_cases hlower : c.isLower = true
  · exact iff_of_false (not_isLow_of_isUpper ((isUpper_toUpper_of_isLow h).mpr hlower))
      (not_isDigit_of_isLower hlower)
  · rw [Char.toUpper_eq_of_not_isLower hlower, isLow, Bool.eq_false_iff.mpr hlower, Bool.false_or]

theorem inWord_toUpper_of_isLow (h : isLow c = true) : inWord c.toUpper = true := by
  rcases Bool.or_eq_true_iff.mp h with hlower | hdigit
  · exact inWord_of_isUpper ((isUpper_toUpper_of_isLow h).mpr hlower)
  · exact inWord_of_isLow ((isLow_toUpper_of_isLow h).mpr hdigit)

theorem wordForm_upper_iff (h : LowWord w) : WordForm (upper w).toList ↔ WholeInCapitals w := by
  obtain ⟨c, rest, hw⟩ := List.exists_cons_of_ne_nil h.ne_nil
  have hlow := h.low
  rw [upper, String.toList_ofList, WholeInCapitals, hw]
  rw [hw] at hlow
  obtain ⟨hc, hrest⟩ := List.forall_mem_cons.mp hlow
  have hdigits : (∀ d ∈ rest.map Char.toUpper, isLow d = true) ↔ ∀ d ∈ rest, d.isDigit = true := by
    rw [List.forall_mem_map]
    exact forall₂_congr fun d hd => isLow_toUpper_of_isLow (hrest d hd)
  have hletters : (∀ d ∈ (c :: rest).map Char.toUpper, d.isUpper = true) ↔
      ∀ d ∈ c :: rest, d.isLower = true := by
    rw [List.forall_mem_map]
    exact forall₂_congr fun d hd => isUpper_toUpper_of_isLow (hlow d hd)
  constructor
  · rw [List.map_cons] at hletters ⊢
    intro hform
    cases hform with
    | low _ hall => exact Or.inr (hdigits.mp (List.forall_mem_cons.mp hall).2)
    | capitals _ hall => exact Or.inl (hletters.mp hall)
    | capitalized _ _ hall => exact Or.inr (hdigits.mp hall)
  · rintro (hall | hall)
    · exact .capitals (List.cons_ne_nil _ _) (hletters.mpr hall)
    · have htail := hdigits.mpr hall
      rcases Bool.or_eq_true_iff.mp hc with hlower | hdigit
      · have hupper := (isUpper_toUpper_of_isLow hc).mpr hlower
        cases rest with
        | nil => exact .capitals (List.cons_ne_nil _ _) (List.forall_mem_singleton.mpr hupper)
        | cons d more => exact .capitalized hupper (List.cons_ne_nil _ _) htail
      · exact .low (List.cons_ne_nil _ _)
          (List.forall_mem_cons.mpr ⟨(isLow_toUpper_of_isLow hc).mpr hdigit, htail⟩)

/-- What was in capitals is again what it was. -/
theorem map_toUpper_map_toLower {r : List Char} (hr : r ∈ rawWords (upper w).toList) :
    (r.map Char.toLower).map Char.toUpper = r := by
  rw [List.map_map]
  refine (List.map_congr_left fun c hc => ?_).trans (List.map_id r)
  have hmem := (mem_of_mem_rawWords hr hc).1
  rw [upper, String.toList_ofList] at hmem
  obtain ⟨d, -, rfl⟩ := List.mem_map.mp hmem
  rw [Function.comp_apply, Char.toUpper_toLower_eq_toUpper, Char.toUpper_toUpper_eq_toUpper, id]

/-- The words of a text in capitals do not fall into smaller ones. -/
theorem words_upper_of_mem (h : u ∈ words (upper w)) : words (upper u) = [u] := by
  obtain ⟨r, hr, rfl⟩ := List.mem_map.mp h
  rw [words, upper, String.toList_ofList, String.toList_ofList, map_toUpper_map_toLower hr,
    rawWords_eq_singleton_iff.mpr (wordForm_of_mem_rawWords hr), List.map_singleton]

theorem words_upper_eq_singleton_iff (h : LowWord w) :
    words (upper w) = [w] ↔ WholeInCapitals w := by
  rw [← wordForm_upper_iff h, ← rawWords_eq_singleton_iff]
  constructor
  · intro hwords
    obtain ⟨r, hraw, hr⟩ := List.map_eq_singleton_iff.mp hwords
    have hmem : r ∈ rawWords (upper w).toList := hraw ▸ List.mem_singleton_self r
    have hsame : r = (upper w).toList := by
      rw [← map_toUpper_map_toLower hmem, upper, ← hr, String.toList_ofList, String.toList_ofList]
    rw [hraw, hsame]
  · intro hraw
    rw [words, hraw, List.map_singleton]
    exact congrArg ([·]) ((lower_upper w).trans h.lower_eq)

theorem words_upper_ne_nil (h : LowWord w) : words (upper w) ≠ [] := by
  intro hnil
  have hflat := flatten_rawWords (upper w).toList
  rw [List.map_eq_nil_iff.mp hnil, upper, String.toList_ofList] at hflat
  obtain ⟨c, rest, hw⟩ := List.exists_cons_of_ne_nil h.ne_nil
  have hc : c ∈ w.toList := hw ▸ List.mem_cons_self
  have hmem := List.filter_eq_nil_iff.mp hflat.symm _ (List.mem_map_of_mem hc)
  exact hmem (inWord_toUpper_of_isLow (h.low c hc))

end

/-- If everything becomes something, a list stays the same only if everything stays the same. -/
theorem flatMap_eq_self_iff {α : Type} {f : α → List α} {xs : List α} (h : ∀ x ∈ xs, f x ≠ []) :
    xs.flatMap f = xs ↔ ∀ x ∈ xs, f x = [x] := by
  have hlength : ∀ xs : List α, (∀ x ∈ xs, f x ≠ []) → xs.length ≤ (xs.flatMap f).length := by
    intro xs h
    induction xs with
    | nil => exact Nat.le_refl 0
    | cons x rest ih =>
      obtain ⟨hx, hrest⟩ := List.forall_mem_cons.mp h
      have hpos := List.length_pos_of_ne_nil hx
      have hle := ih hrest
      rw [List.flatMap_cons, List.length_append, List.length_cons]
      omega
  constructor
  · intro heq
    induction xs with
    | nil => exact nofun
    | cons x rest ih =>
      obtain ⟨hx, hrest⟩ := List.forall_mem_cons.mp h
      obtain ⟨y, more, hy⟩ := List.exists_cons_of_ne_nil hx
      rw [List.flatMap_cons, hy, List.cons_append, List.cons.injEq] at heq
      obtain ⟨rfl, htail⟩ := heq
      have hle := hlength rest hrest
      have hsum := congrArg List.length htail
      rw [List.length_append] at hsum
      obtain rfl : more = [] := List.length_eq_zero_iff.mp (by omega)
      exact List.forall_mem_cons.mpr ⟨hy, ih hrest htail⟩
  · intro hall
    rw [List.flatMap_congr hall, List.flatMap_singleton']

/-! ## Screaming styles -/

section

variable {s : Style} {ws : List String} {n : String}

/-- A screaming style puts a separator between the words and turns all into capitals. -/
theorem exists_separator (hs : s = .screamingSnake ∨ s = .screamingKebab) :
    ∃ separator c, String.toList separator = [c] ∧ Separates c ∧ upper separator = separator ∧
      lower separator = separator ∧
      ∀ ws, s.join ws = upper (String.intercalate separator ws) := by
  rcases hs with rfl | rfl
  · exact ⟨"_", '_', rfl, ⟨rfl, rfl⟩, rfl, rfl, fun _ => rfl⟩
  · exact ⟨"-", '-', rfl, ⟨rfl, rfl⟩, rfl, rfl, fun _ => rfl⟩

theorem words_join (hs : s = .screamingSnake ∨ s = .screamingKebab) (ws : List String) :
    words (s.join ws) = ws.flatMap fun w => words (upper w) := by
  obtain ⟨separator, c, hseparator, hc, hupper, -, hjoin⟩ := exists_separator hs
  have hcapitals : upper (String.intercalate separator ws) =
      String.intercalate separator (ws.map upper) := by
    refine (ofList_map_intercalate Char.toUpper separator ws).trans ?_
    exact congrArg (String.intercalate · (ws.map upper)) hupper
  rw [hjoin, hcapitals, words_intercalate hseparator hc, List.flatMap_map]

theorem join_inj (hs : s = .screamingSnake ∨ s = .screamingKebab) {us : List String}
    (hus : ∀ u ∈ us, LowWord u) (hws : ∀ w ∈ ws, LowWord w) (h : s.join us = s.join ws) :
    us = ws := by
  obtain ⟨separator, c, hseparator, hc, -, hlower, hjoin⟩ := exists_separator hs
  have hread : ∀ ts : List String, (∀ t ∈ ts, LowWord t) → words (lower (s.join ts)) = ts := by
    intro ts hts
    have hlow : lower (String.intercalate separator ts) = String.intercalate separator ts := by
      refine (ofList_map_intercalate Char.toLower separator ts).trans ?_
      have hmap : ts.map lower = ts :=
        (List.map_congr_left fun t ht => (hts t ht).lower_eq).trans (List.map_id ts)
      exact congrArg₂ String.intercalate hlower hmap
    rw [hjoin, lower_upper, hlow, words_intercalate hseparator hc, flatMap_words hts]
  rw [← hread us hus, h, hread ws hws]

/-- Applied to its own spelling, a screaming style works on the words in capitals. -/
theorem apply_join (hs : s = .screamingSnake ∨ s = .screamingKebab) (hws : ∀ w ∈ ws, LowWord w)
    (hne : ws ≠ []) : s.apply (s.join ws) = s.join (ws.flatMap fun w => words (upper w)) := by
  have hjoin := words_join hs ws
  rw [apply_eq_join, hjoin]
  rw [hjoin]
  obtain ⟨w, rest, rfl⟩ := List.exists_cons_of_ne_nil hne
  exact List.append_ne_nil_of_left_ne_nil (words_upper_ne_nil (hws w List.mem_cons_self)) _

end

/-! ## Main statements -/

/-- Snake case and kebab case keep all that styles look at: any style gives their spelling of a name
the same spelling as the name, and names that they spell alike are spelt alike in every style. -/
theorem separated_spellings_canonical {c : Style} (hc : c = .snake ∨ c = .kebab) :
    (∀ (s : Style) (n : String), s.apply (c.apply n) = s.apply n) ∧
      (∀ style n : String, applyNamed? style (c.apply n) = applyNamed? style n) ∧
      (∀ n : String, c.apply (c.apply n) = c.apply n) ∧
      ∀ m n : String, words n ≠ [] → c.apply m = c.apply n → ∀ s : Style, s.apply m = s.apply n := by
  have hstyle : ∀ (s : Style) (n : String), s.apply (c.apply n) = s.apply n := by
    intro s n
    by_cases hnil : words n = []
    · rw [apply_of_words_eq_nil (s := c) hnil]
    · exact apply_congr (words_apply hc n) hnil s
  refine ⟨hstyle, fun style n => ?_, fun n => hstyle c n, fun m n hne heq s => ?_⟩
  · by_cases hnil : words n = []
    · rw [apply_of_words_eq_nil (s := c) hnil]
    · rw [applyNamed?, applyNamed?, words_apply hc n]
      split
      · next hnone => exact absurd hnone hnil
      · rfl
  · have hwords : words m = words n := by rw [← words_apply hc m, heq, words_apply hc n]
    exact apply_congr hwords hne s

/-- A run of capitals and a digit are found again in the snake case of a name. -/
theorem status_spelt_from_snake :
    Style.snake.apply "HTTPStatus2" = "http_status2" ∧ words "HTTPStatus2" ≠ [] ∧
      Style.snake.apply "http-status2" = Style.snake.apply "HTTPStatus2" ∧
      Style.camel.apply "http_status2" = Style.camel.apply "HTTPStatus2" ∧
      Style.camel.apply "http-status2" = Style.camel.apply "HTTPStatus2" := by
  have hsnake : Style.snake.apply "HTTPStatus2" = "http_status2" := by cbv
  have hkebab : Style.snake.apply "http-status2" = Style.snake.apply "HTTPStatus2" := by cbv
  have hfound : words "HTTPStatus2" = ["http", "status2"] := by cbv
  have hwords : words "HTTPStatus2" ≠ [] := hfound ▸ List.cons_ne_nil _ _
  obtain ⟨hstyle, -, -, halike⟩ := separated_spellings_canonical (Or.inl (rfl : Style.snake = _))
  exact ⟨hsnake, hwords, hkebab, hsnake ▸ hstyle .camel "HTTPStatus2",
    halike "http-status2" "HTTPStatus2" hwords hkebab .camel⟩

/-- A screaming style leaves its own spelling of a name alone exactly if each word of the name is
whole in capitals, and exactly then a member declared in that spelling has it as its wire name.
Applied once more it always does. -/
theorem screaming_kept_iff {s : Style} (hs : s = .screamingSnake ∨ s = .screamingKebab)
    (n : String) :
    (s.apply (s.apply n) = s.apply n ↔ ∀ w ∈ words n, WholeInCapitals w) ∧
      (∀ attributes, Schema.explicitName? attributes = none →
        (Schema.wireName (some s) attributes (s.apply n) = s.apply n ↔
          ∀ w ∈ words n, WholeInCapitals w)) ∧
      s.apply (s.apply (s.apply n)) = s.apply (s.apply n) := by
  by_cases hnil : words n = []
  · have hsame : s.apply n = n := apply_of_words_eq_nil hnil
    simp only [hsame, hnil]
    refine ⟨iff_of_true trivial nofun, fun attributes hnone => ?_, trivial⟩
    rw [Schema.wireName, hnone]
    exact iff_of_true hsame nofun
  have hlow : ∀ w ∈ words n, LowWord w := fun w hw => lowWord_of_mem_words hw
  have hfirst := apply_eq_join (s := s) hnil
  have hsecond := apply_join hs hlow hnil
  generalize words n = ws at hnil hlow hfirst hsecond
  have hsettled : ∀ u ∈ ws.flatMap fun w => words (upper w), LowWord u ∧ words (upper u) = [u] := by
    intro u hu
    obtain ⟨w, -, hw⟩ := List.mem_flatMap.mp hu
    exact ⟨lowWord_of_mem_words hw, words_upper_of_mem hw⟩
  have hnonempty : ∀ w ∈ ws, words (upper w) ≠ [] := fun w hw => words_upper_ne_nil (hlow w hw)
  have hkept : s.apply (s.apply n) = s.apply n ↔ ∀ w ∈ ws, WholeInCapitals w := by
    rw [hfirst, hsecond]
    have hwhole : (ws.flatMap fun w => words (upper w)) = ws ↔ ∀ w ∈ ws, WholeInCapitals w :=
      (flatMap_eq_self_iff hnonempty).trans
        (forall₂_congr fun w hw => words_upper_eq_singleton_iff (hlow w hw))
    rw [← hwhole]
    exact ⟨join_inj hs (fun u hu => (hsettled u hu).1) hlow, congrArg s.join⟩
  refine ⟨hkept, fun attributes hnone => ?_, ?_⟩
  · rw [Schema.wireName, hnone]
    exact hkept
  · have hne : (ws.flatMap fun w => words (upper w)) ≠ [] := by
      obtain ⟨w, rest, rfl⟩ := List.exists_cons_of_ne_nil hnil
      exact List.append_ne_nil_of_left_ne_nil (hnonempty w List.mem_cons_self) _
    rw [hfirst, hsecond, apply_join hs (fun u hu => (hsettled u hu).1) hne,
      (flatMap_eq_self_iff fun u hu => words_upper_ne_nil (hsettled u hu).1).mpr
        fun u hu => (hsettled u hu).2]

/-- Of two letters before a digit the first one is a word of its own in capitals. -/
theorem short_code_split_in_capitals :
    isIdent "ab1".toList = true ∧ Style.screamingSnake.apply "ab1" = "AB1" ∧
      Style.screamingSnake.apply (Style.screamingSnake.apply "ab1") = "A_B1" ∧
      Style.screamingSnake.apply (Style.screamingSnake.apply "ab1") ≠
        Style.screamingSnake.apply "ab1" := by
  have honce : Style.screamingSnake.apply "ab1" = "AB1" := by cbv
  have htwice : Style.screamingSnake.apply "AB1" = "A_B1" := by cbv
  refine ⟨by decide, honce, by rw [honce, htwice], ?_⟩
  rw [honce, htwice]
  decide

/-- Digits after a single letter or apart from letters stay where they are. -/
theorem port_code_kept_in_capitals :
    Style.screamingKebab.apply "portV4_80" = "PORT-V4-80" ∧
      Style.screamingKebab.apply "PORT-V4-80" = "PORT-V4-80" ∧
      Schema.wireName (some .screamingKebab) [] "PORT-V4-80" = "PORT-V4-80" := by
  have honce : Style.screamingKebab.apply "portV4_80" = "PORT-V4-80" := by cbv
  have hwords : words "portV4_80" = ["port", "v4", "80"] := by cbv
  obtain ⟨hkept, hwire, -⟩ :=
    screaming_kept_iff (Or.inr (rfl : Style.screamingKebab = _)) "portV4_80"
  have hwhole : ∀ w ∈ ["port", "v4", "80"], WholeInCapitals w := by decide +kernel
  rw [hwords, honce] at hkept hwire
  exact ⟨honce, hkept.mpr hwhole, (hwire [] rfl).mpr hwhole⟩

end Casing
end EndpointDsl
