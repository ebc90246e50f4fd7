import EndpointDsl.Proofs.Name.Spelling
import EndpointDsl.Text.Escape

/-!
Texts without null characters, and the names that are made of them.

A text that is put together of such texts is one again.  Quoting leaves no null character in any
text.  The names of a generated module take their characters from the names they are made of, or
change the letter case of those, or add letters and underscores.
-/

namespace EndpointDsl
namespace Text

/-! ## Texts put together -/

/-- No character is a quote, a backslash or the null character. -/
def IsBare (cs : List Char) : Prop := ∀ c ∈ cs, c ∉ ['"', '\\', '\x00']

instance : DecidablePred IsBare := fun cs => List.decidableBAll _ cs

/-- What bare texts have, and what texts put together keep. -/
structure Composable (good : String → Prop) : Prop where
  bare : ∀ {s : String}, IsBare s.toList → good s
  append : ∀ {s t : String}, good s → good t → good (s ++ t)

theorem isBare_of_wordChars {s : String} (h : Name.WordChars s) : IsBare s.toList := by
  intro c hc hmem
  have hword := h c hc
  simp only [List.mem_cons, List.not_mem_nil, or_false] at hmem
  rcases hmem with rfl | rfl | rfl <;> exact absurd hword (by decide)

namespace Composable

variable {good : String → Prop} (h : Composable good)

include h

theorem intercalate {separator : String} {texts : List String} (hseparator : good separator)
    (htexts : ∀ s ∈ texts, good s) : good (String.intercalate separator texts) := by
  induction texts with
  | nil =>
    rw [String.intercalate_nil]
    exact h.bare nofun
  | cons first rest ih =>
    obtain ⟨hfirst, hrest⟩ := List.forall_mem_cons.mp htexts
    cases rest with
    | nil => rwa [String.intercalate_singleton]
    | cons second others =>
      rw [String.intercalate_cons_cons]
      exact h.append (h.append hfirst hseparator) (ih hrest)

/-- A literal is the list of its characters. -/
theorem chars {cs : List Char} (hcs : IsBare cs) : good (String.ofList cs) :=
  h.bare (String.toList_ofList ▸ hcs)

theorem ident {s : String} (hs : isIdent s.toList = true) : good s :=
  h.bare (isBare_of_wordChars (Name.wordChars_of_isIdent hs))

end Composable

/-! ## Texts without null characters -/

/-- No character of the text is the null character. -/
def NullFree (s : String) : Prop := '\x00' ∉ s.toList

instance : DecidablePred NullFree := fun s => inferInstanceAs (Decidable ('\x00' ∉ s.toList))

variable {s t separator : String} {texts : List String} {cs : List Char}

@[simp] theorem nullFree_append : NullFree (s ++ t) ↔ NullFree s ∧ NullFree t := by
  rw [NullFree, String.toList_append, List.mem_append, not_or]
  rfl

@[simp] theorem nullFree_toString : NullFree (toString s) ↔ NullFree s := Iff.rfl

@[simp] theorem nullFree_ofList : NullFree (String.ofList cs) ↔ '\x00' ∉ cs := by
  rw [NullFree, String.toList_ofList]

/-- A literal is the list of its characters. -/
theorem nullFree_chars (h : '\x00' ∉ cs) : NullFree (String.ofList cs) := nullFree_ofList.mpr h

theorem nullFree_of_subset (h : NullFree s) (hsub : t.toList ⊆ s.toList) : NullFree t :=
  fun hmem => h (hsub hmem)

theorem nullFree_join (h : ∀ s ∈ texts, NullFree s) : NullFree (String.join texts) := by
  rw [NullFree, String.toList_join]
  intro hmem
  obtain ⟨s, hs, hnull⟩ := List.mem_flatMap.mp hmem
  exact h s hs hnull

theorem nullFree_composable : Composable NullFree where
  bare := fun h hnull => h _ hnull (by decide)
  append := fun hs ht => nullFree_append.mpr ⟨hs, ht⟩

theorem nullFree_intercalate (hseparator : NullFree separator) (h : ∀ s ∈ texts, NullFree s) :
    NullFree (String.intercalate separator texts) :=
  nullFree_composable.intercalate hseparator h

/-! ## Quoted texts -/

/-- What holds of the sixteen digits holds of the digits of a number. -/
theorem forall_mem_lowerHex {p : Char → Prop} (h : ∀ n < 16, p (lowerHexDigit n)) (width n : Nat) :
    ∀ c ∈ lowerHex width n, p c := by
  induction width generalizing n with
  | zero => exact fun c hc => nomatch hc
  | succ width ih =>
    intro c hc
    rcases List.mem_append.mp hc with hc | hc
    · exact ih (n / 16) c hc
    · rw [List.mem_singleton.mp hc]
      exact h _ (Nat.mod_lt n (by decide))

theorem not_mem_unitEscape (n : Nat) : '\x00' ∉ unitEscape n := by
  have hdigits : ∀ c ∈ lowerHex 4 n, c ≠ '\x00' := forall_mem_lowerHex (by decide) 4 n
  intro hmem
  rcases List.mem_cons.mp hmem with h | hmem
  · exact absurd h (by decide)
  · rcases List.mem_cons.mp hmem with h | hmem
    · exact absurd h (by decide)
    · exact hdigits _ hmem rfl

theorem not_mem_asciiEscape (c : Char) : '\x00' ∉ asciiEscape c := by
  unfold asciiEscape
  split
  · next cs hcs =>
    unfold shortEscape? at hcs
    repeat' split at hcs
    all_goals first | cases hcs; decide | cases hcs
  · split
    · next hvisible =>
      intro hmem
      rw [← List.mem_singleton.mp hmem] at hvisible
      exact absurd hvisible (by decide)
    · intro hmem
      obtain ⟨n, -, hn⟩ := List.mem_flatMap.mp hmem
      exact not_mem_unitEscape n hn

theorem nullFree_asciiLiteral (s : String) : NullFree (asciiLiteral s) := by
  rw [asciiLiteral, nullFree_ofList, List.mem_append, List.mem_cons, List.mem_flatMap]
  rintro ((h | ⟨c, -, hc⟩) | h)
  · exact absurd h (by decide)
  · exact not_mem_asciiEscape c hc
  · exact absurd h (by decide)

end Text

/-! ## Names -/

open Text

theorem nullFree_of_wordChars {s : String} (h : Name.WordChars s) : NullFree s :=
  fun hnull => absurd (h _ hnull) (by decide)

theorem nullFree_of_isIdent {s : String} (h : isIdent s.toList = true) : NullFree s :=
  nullFree_of_wordChars (Name.wordChars_of_isIdent h)

namespace PathTemplate

/-- The parameters of a template stand in its text. -/
theorem subset_of_spells {segments : List Segment} {cs : List Char} (h : Spells segments cs)
    {p : String} (hp : .param p ∈ segments) : p.toList ⊆ cs := by
  have hliteral : ∀ {run : List Char}, .param p ∉ literalSegment run := by
    intro run hmem
    unfold literalSegment at hmem
    split at hmem
    · cases hmem
    · cases List.mem_singleton.mp hmem
  induction h with
  | text hrun => exact absurd hp hliteral
  | @group run name more segments hrun hname _ ih =>
    intro c hc
    rcases List.mem_append.mp hp with hp | hp
    · exact absurd hp hliteral
    · refine List.mem_append_right run (List.mem_cons_of_mem _ ?_)
      rcases List.mem_cons.mp hp with heq | hp
      · rw [Segment.param.inj heq, String.toList_ofList] at hc
        exact List.mem_append_left _ hc
      · exact List.mem_append_right name (List.mem_cons_of_mem _ (ih hp hc))

end PathTemplate

/-! ## Names in a casing style -/

namespace Casing

variable {c : Char} {name : String}

theorem toUpper_ne_null (h : c ≠ '\x00') : c.toUpper ≠ '\x00' := by
  unfold Char.toUpper
  split
  · next hlower =>
    intro heq
    have hval := congrArg (fun c : Char => c.val.toNat) heq
    simp only [UInt32.toNat_add, show ('A'.val - 'a'.val).toNat = 2 ^ 32 - 32 by decide,
      show '\x00'.val.toNat = 0 by decide] at hval
    have hfirst : 97 ≤ c.val.toNat := UInt32.le_iff_toNat_le.mp hlower.1
    have hlast : c.val.toNat ≤ 122 := UInt32.le_iff_toNat_le.mp hlower.2
    omega
  · exact h

theorem nullFree_of_mem_words {word : String} (h : word ∈ words name) : NullFree word :=
  nullFree_of_wordChars (Name.wordChars_of_mem_words h)

theorem nullFree_upper {word : String} (h : NullFree word) : NullFree (upper word) := by
  rw [upper, nullFree_ofList]
  intro hnull
  obtain ⟨c, hc, heq⟩ := List.mem_map.mp hnull
  refine toUpper_ne_null ?_ heq
  rintro rfl
  exact h hc

theorem nullFree_capitalize {word : String} (h : NullFree word) : NullFree (capitalize word) := by
  unfold capitalize
  split
  · decide
  · next c rest hword =>
    rw [NullFree, hword, List.mem_cons, not_or] at h
    rw [nullFree_ofList, List.mem_cons, not_or]
    exact ⟨(toUpper_ne_null (Ne.symm h.1)).symm, h.2⟩

namespace Style

theorem nullFree_join (style : Style) {ws : List String} (h : ∀ w ∈ ws, NullFree w) :
    NullFree (style.join ws) := by
  have hcapitals : ∀ w ∈ ws.map capitalize, NullFree w :=
    List.forall_mem_map.mpr fun w hw => nullFree_capitalize (h w hw)
  cases style with
  | camel =>
    cases ws with
    | nil => decide
    | cons w ws =>
      exact nullFree_append.mpr ⟨h w List.mem_cons_self,
        Text.nullFree_join (List.forall_mem_cons.mp hcapitals).2⟩
  | pascal => exact Text.nullFree_join hcapitals
  | snake => exact nullFree_intercalate (by decide) h
  | screamingSnake => exact nullFree_upper (nullFree_intercalate (by decide) h)
  | kebab => exact nullFree_intercalate (by decide) h
  | screamingKebab => exact nullFree_upper (nullFree_intercalate (by decide) h)
  | lower => exact Text.nullFree_join h
  | upper => exact nullFree_upper (Text.nullFree_join h)

theorem nullFree_apply (style : Style) (h : NullFree name) : NullFree (style.apply name) := by
  unfold apply
  split
  · exact h
  · exact nullFree_join style fun w hw => nullFree_of_mem_words hw

end Style
end Casing

/-! ## Names of a module -/

namespace Name

variable {name : String} {path : PathTemplate}

theorem nullFree_methodIdentifier (verb : Verb) (h : ∀ p ∈ path.parameters, NullFree p) :
    NullFree (methodIdentifier verb path) := by
  have hsegments : ∀ part ∈ path.segments.flatMap segmentParts, NullFree part := by
    intro part hpart
    obtain ⟨segment, hsegment, hmem⟩ := List.mem_flatMap.mp hpart
    cases segment with
    | literal text => exact nullFree_of_wordChars (wordChars_of_mem_literalParts hmem)
    | param p =>
      rw [List.mem_singleton.mp hmem, nullFree_append]
      exact ⟨by decide, Casing.Style.nullFree_apply _
        (h p (List.mem_filterMap.mpr ⟨_, hsegment, rfl⟩))⟩
  have hparts : ∀ part ∈ pathParts path, NullFree part := by
    unfold pathParts
    split
    · decide
    · exact hsegments
  have hverb : NullFree verb.lowerName := by cases verb <;> decide
  rw [methodIdentifier, nullFree_ofList]
  intro hnull
  exact nullFree_intercalate (by decide) (List.forall_mem_cons.mpr ⟨hverb, hparts⟩)
    ((collapse_sublist _).subset hnull)

theorem nullFree_className (verb : Verb) {item : String} (h : ∀ p ∈ path.parameters, NullFree p)
    (hitem : NullFree item) : NullFree (className verb path item) :=
  nullFree_append.mpr
    ⟨Casing.Style.nullFree_apply _ (nullFree_methodIdentifier verb h), hitem⟩

theorem nullFree_attributeName (h : NullFree name) : NullFree (attributeName name) := by
  have hstem : NullFree (attributeStem name) := by
    have hsub := (List.dropWhile_sublist (l := name.toList) (· == '_')).subset
    unfold attributeStem
    split
    · decide
    · next c rest hrest =>
      have hchars : NullFree (String.ofList (c :: rest)) := by
        rw [nullFree_ofList, ← hrest]
        exact fun hnull => h (hsub hnull)
      split
      · exact nullFree_append.mpr ⟨by decide, hchars⟩
      · exact hchars
  simp only [attributeName]
  split
  · exact nullFree_append.mpr ⟨hstem, by decide⟩
  · exact hstem

end Name
end EndpointDsl
