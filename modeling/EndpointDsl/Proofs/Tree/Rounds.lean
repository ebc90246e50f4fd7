import EndpointDsl.Proofs.Source.Places
import EndpointDsl.Proofs.Tree.Brackets
import EndpointDsl.Proofs.Tree.Relocation

/-!
The rounds in which a token list is read.

After a broken block the next round starts where the scan for its end stops, not where the error
arose.  The scan goes at least as far.  It ends with the bracket that closes the block, and up to
there the rules do not look further, or it takes everything that is left.  So the error of a round
is at a token that the round takes, or at the end of the text, and the rounds share no token.
-/

namespace EndpointDsl
namespace Tree
namespace Parser

/-- The tokens that one round takes, and what it finds.  It finds nothing when all it takes is a
comma. -/
structure Round where
  span : List Token
  outcome : Option (Except SyntaxError Endpoint)

def Round.endpoint? (r : Round) : Option Endpoint := r.outcome.bind okValue?

def Round.error? (r : Round) : Option SyntaxError := r.outcome.bind errorValue?

theorem Round.endpoint?_eq_some_iff {r : Round} {e : Endpoint} :
    r.endpoint? = some e ↔ r.outcome = some (.ok e) := by
  obtain ⟨span, _ | (e' | a)⟩ := r <;> simp [Round.endpoint?, okValue?]

theorem Round.error?_eq_some_iff {r : Round} {e : SyntaxError} :
    r.error? = some e ↔ r.outcome = some (.error e) := by
  obtain ⟨span, _ | (e' | a)⟩ := r <;> simp [Round.error?, errorValue?]

/-- What a round finds at the start of a block, and the tokens that it leaves. -/
def found (stop : Location) : List Token → Option (Except SyntaxError Endpoint) × List Token
  | [] => (none, [])
  | t :: rest =>
    match run (endpoint stop) (t :: rest) with
    | .ok (a, more) => (some (.ok a), more)
    | .error e => (some (.error e), recover (t :: rest))

/-- A round goes over a comma first, unless it is the first of all. -/
def round (stop : Location) (commaAllowed : Bool) (ts : List Token) :
    Option (Except SyntaxError Endpoint) × List Token :=
  found stop (if commaAllowed then skip .comma ts else ts)

/-! ## What an error is at -/

variable {stop : Location}

/-- The place of an error is one that the rules were given. -/
theorem location_of_run_endpoint {ts : List Token} {e : SyntaxError}
    (h : run (endpoint stop) ts = .error e) : e.location ∈ (⟨ts, stop⟩ : TokenList).places := by
  -- A move of all other places leaves the list alone, and with it the place of the error.
  obtain ⟨hts, hstop⟩ := TokenList.mk.inj (TokenList.relocate_moveOthers ⟨ts, stop⟩)
  have hmoved := @follows_endpoint (moveOthers (⟨ts, stop⟩ : TokenList).places) (ts.length + 1) stop
    ts (Nat.lt_succ_self _)
  simp only at hts hstop
  rw [hts, hstop, h] at hmoved
  rcases hmoved with ⟨e', he, he'⟩ | ⟨a, rest, -, hread, -⟩
  · cases he
    exact moveOthers_eq_self_iff.mp (Located.relocate_eq_self_iff.mp (Except.error.inj he').symm)
  · cases hread

/-- Inside its brackets a block fails at one of its tokens: the end of the text may be anywhere. -/
theorem location_of_closing {t : Token} {front rest : List Token} {e : SyntaxError}
    (hclosing : Closing 1 front) (h : run (endpoint stop) (t :: front ++ rest) = .error e) :
    e.location ∈ (t :: front).map (·.location) := by
  let other : Location := { e.location with offset := e.location.offset + 1 }
  have hother : e.location ≠ other := by
    intro heq
    have hoffset := congrArg Location.offset heq
    simp [other] at hoffset
  rcases @endpoint_append_of_closing stop other front hclosing t rest [] with
    ⟨e', hread, halone⟩ | ⟨a, hread, -⟩
  · cases h.symm.trans hread
    have hplace := location_of_run_endpoint halone
    rw [List.append_nil, TokenList.places, List.mem_append, List.mem_singleton] at hplace
    exact hplace.resolve_right hother
  · cases h.symm.trans hread

/-- With brackets open, the scan takes the tokens that close them, or all tokens. -/
theorem exists_closing_of_afterBlock (d : Nat) (ts : List Token) :
    (∃ front, ts = front ++ afterBlock (d + 1) ts ∧ Closing (d + 1) front) ∨
      afterBlock (d + 1) ts = [] := by
  induction ts generalizing d with
  | nil => exact Or.inr rfl
  | cons t rest ih =>
    have hnext : ∀ k, t.lexeme.depthFrom (d + 1) = k + 1 →
        afterBlock (d + 1) (t :: rest) = afterBlock (k + 1) rest →
        (∃ front, t :: rest = front ++ afterBlock (d + 1) (t :: rest) ∧ Closing (d + 1) front) ∨
          afterBlock (d + 1) (t :: rest) = [] := by
      intro k hdepth hafter
      rw [hafter]
      rcases ih k with ⟨front, hrest, hclosing⟩ | hnil
      · exact Or.inl ⟨t :: front, congrArg (t :: ·) hrest, .step (hdepth ▸ hclosing)⟩
      · exact Or.inr hnil
    by_cases hopener : t.lexeme.isOpener = true
    · exact hnext (d + 1) (if_pos hopener) (by rw [afterBlock, if_pos hopener, if_neg (by omega)])
    by_cases hcloser : t.lexeme.isCloser = true
    · have hdepth : t.lexeme.depthFrom (d + 1) = d := by
        rw [Lexeme.depthFrom, if_neg hopener, if_pos hcloser, Nat.add_sub_cancel]
      cases d with
      | zero =>
        refine Or.inl ⟨[t], ?_, .step (by rw [hdepth]; exact .done)⟩
        rw [afterBlock, if_neg hopener, if_pos hcloser, if_pos rfl]
        rfl
      | succ d =>
        refine hnext d hdepth ?_
        rw [afterBlock, if_neg hopener, if_pos hcloser, if_neg (by omega), Nat.add_sub_cancel]
    · refine hnext d ?_ (by rw [afterBlock, if_neg hopener, if_neg hcloser])
      rw [Lexeme.depthFrom, if_neg hopener, if_neg hcloser]

theorem afterBlock_suffix (d : Nat) (ts : List Token) : afterBlock d ts <:+ ts := by
  induction ts generalizing d with
  | nil => exact List.suffix_rfl
  | cons t rest ih =>
    have hcons : ∀ d, afterBlock d rest <:+ t :: rest := fun d =>
      (ih d).trans (List.suffix_cons t rest)
    rw [afterBlock]
    split
    · split
      · exact List.suffix_rfl
      · exact hcons _
    · split
      · split
        · exact List.suffix_cons t rest
        · exact hcons _
      · exact hcons _

/-- A broken block is skipped beyond its error, which is at one of the tokens that are skipped.
Only when all tokens are skipped can it be at the end of the text. -/
theorem exists_skipped_of_error {t : Token} {rest : List Token} {e : SyntaxError}
    (h : run (endpoint stop) (t :: rest) = .error e) :
    ∃ front, rest = front ++ recover (t :: rest) ∧
      (e.location ∈ (t :: front).map (·.location) ∨
        e.location = stop ∧ recover (t :: rest) = []) := by
  by_cases hopening : t.lexeme = .punct .leftBracket
  · have hopener : t.lexeme.isOpener = true := by rw [hopening]; rfl
    rw [recover, if_pos hopener]
    rcases exists_closing_of_afterBlock 0 rest with ⟨front, hrest, hclosing⟩ | hnil
    · refine ⟨front, hrest, Or.inl ?_⟩
      rw [hrest] at h
      exact location_of_closing hclosing h
    · refine ⟨rest, by rw [hnil, List.append_nil], ?_⟩
      have hplace := location_of_run_endpoint h
      rw [TokenList.places, List.mem_append, List.mem_singleton] at hplace
      exact hplace.imp_right fun hstop => ⟨hstop, hnil⟩
  · obtain ⟨front, hfront⟩ := afterBlock_suffix (if t.lexeme.isOpener then 1 else 0) rest
    refine ⟨front, hfront.symm, Or.inl ?_⟩
    rw [run_endpoint, run_bind_error (run_punct_of_ne hopening)] at h
    cases h
    exact List.mem_cons_self

/-! ## One round -/

/-- What holds of a round that leaves `rest`. -/
structure Round.Sound (stop : Location) (r : Round) (rest : List Token) : Prop where
  span_ne_nil : r.span ≠ []
  error_at : ∀ e, r.outcome = some (.error e) →
    e.location ∈ r.span.map (·.location) ∨ e.location = stop ∧ rest = []
  idle : r.outcome = none → r.span.map (·.lexeme) = [.punct .comma] ∧ rest = []

theorem sound_idle (stop place : Location) :
    Round.Sound stop ⟨[⟨.punct .comma, place⟩], none⟩ [] where
  span_ne_nil := List.cons_ne_nil _ _
  error_at := fun e he => by cases he
  idle := fun _ => ⟨rfl, rfl⟩

/-- A round that finds something is as sound with one more token in front. -/
theorem Round.Sound.behind {r : Round} {rest : List Token} (h : r.Sound stop rest)
    (hsome : r.outcome ≠ none) (t : Token) : Round.Sound stop ⟨t :: r.span, r.outcome⟩ rest where
  span_ne_nil := List.cons_ne_nil t r.span
  error_at := fun e he => (h.error_at e he).imp_left (List.mem_cons_of_mem _)
  idle := fun hnone => absurd hnone hsome

theorem exists_sound_found (stop : Location) (t : Token) (ts : List Token) :
    ∃ (r : Round) (rest : List Token), t :: ts = r.span ++ rest ∧
      found stop (t :: ts) = (r.outcome, rest) ∧ r.Sound stop rest ∧ r.outcome ≠ none := by
  rw [found]
  cases h : run (endpoint stop) (t :: ts) with
  | ok result =>
    obtain ⟨a, rest⟩ := result
    obtain ⟨block, _, hts, hblock, -⟩ := exists_block_of_run h
    refine ⟨⟨block, some (.ok a)⟩, rest, hts, rfl, ⟨?_, ?_, ?_⟩, Option.some_ne_none _⟩
    · rintro rfl
      cases hblock.opens
    · intro e he
      cases he
    · intro hidle
      cases hidle
  | error e =>
    obtain ⟨front, hts, hplace⟩ := exists_skipped_of_error h
    refine ⟨⟨t :: front, some (.error e)⟩, recover (t :: ts), congrArg (t :: ·) hts, rfl,
      ⟨List.cons_ne_nil _ _, ?_, ?_⟩, Option.some_ne_none _⟩
    · intro e' he
      cases he
      exact hplace
    · intro hidle
      cases hidle

/-- A round takes tokens off the front.  Only after another one can it find nothing. -/
theorem exists_sound_round (stop : Location) (commaAllowed : Bool) {ts : List Token}
    (hts : ts ≠ []) :
    ∃ (r : Round) (rest : List Token), ts = r.span ++ rest ∧
      round stop commaAllowed ts = (r.outcome, rest) ∧ r.Sound stop rest ∧
        (r.outcome = none → commaAllowed = true) := by
  obtain ⟨t, more, rfl⟩ := List.exists_cons_of_ne_nil hts
  have hplain (h : (if commaAllowed then skip .comma (t :: more) else t :: more) = t :: more) :
      ∃ (r : Round) (rest : List Token), t :: more = r.span ++ rest ∧
        round stop commaAllowed (t :: more) = (r.outcome, rest) ∧ r.Sound stop rest ∧
          (r.outcome = none → commaAllowed = true) := by
    obtain ⟨r, rest, hspan, hfound, hsound, hsome⟩ := exists_sound_found stop t more
    exact ⟨r, rest, hspan, by rw [round, h, hfound], hsound, fun hnone => absurd hnone hsome⟩
  cases commaAllowed with
  | false => exact hplain rfl
  | true =>
    rcases mark_cases .comma (t :: more) with ⟨place, after, hcomma⟩ | hne
    · obtain ⟨rfl, rfl⟩ := List.cons.inj hcomma
      rw [round, if_pos rfl, skip_mark]
      cases more with
      | nil => exact ⟨_, [], rfl, rfl, sound_idle stop place, fun _ => rfl⟩
      | cons u more =>
        obtain ⟨r, rest, hspan, hfound, hsound, hsome⟩ := exists_sound_found stop u more
        exact ⟨⟨⟨.punct .comma, place⟩ :: r.span, r.outcome⟩, rest, congrArg (_ :: ·) hspan, hfound,
          hsound.behind hsome _, fun _ => rfl⟩
    · exact hplain (by rw [if_pos rfl, skip_of_ne hne])

theorem length_round_lt (stop : Location) (commaAllowed : Bool) (t : Token) (ts : List Token) :
    (round stop commaAllowed (t :: ts)).2.length < (t :: ts).length := by
  obtain ⟨r, rest, hspan, hround, hsound, -⟩ :=
    exists_sound_round stop commaAllowed (List.cons_ne_nil t ts)
  have htaken := List.length_pos_of_ne_nil hsound.span_ne_nil
  rw [hround, hspan, List.length_append]
  exact Nat.lt_add_of_pos_left htaken

/-! ## The rounds of a list -/

/-- Round after round until no token is left. -/
def rounds (stop : Location) (commaAllowed : Bool) : List Token → List Round
  | [] => []
  | t :: ts =>
    let result := round stop commaAllowed (t :: ts)
    ⟨(t :: ts).take ((t :: ts).length - result.2.length), result.1⟩ :: rounds stop true result.2
termination_by ts => ts.length
decreasing_by exact length_round_lt stop commaAllowed t ts

/-- The rounds as a run: each takes its span and leaves the rest to the ones after it. -/
inductive Run (stop : Location) : Bool → List Token → List Round → Prop
  | done (commaAllowed : Bool) : Run stop commaAllowed [] []
  | next {commaAllowed : Bool} {r : Round} {rest : List Token} {more : List Round}
      (hround : round stop commaAllowed (r.span ++ rest) = (r.outcome, rest))
      (hsound : r.Sound stop rest) (hidle : r.outcome = none → commaAllowed = true)
      (h : Run stop true rest more) : Run stop commaAllowed (r.span ++ rest) (r :: more)

theorem run_rounds (stop : Location) (commaAllowed : Bool) (ts : List Token) :
    Run stop commaAllowed ts (rounds stop commaAllowed ts) := by
  induction hn : ts.length using Nat.strong_induction_on generalizing commaAllowed ts with
  | h n ih =>
    cases ts with
    | nil =>
      rw [rounds]
      exact .done commaAllowed
    | cons t ts =>
      obtain ⟨r, rest, hspan, hround, hsound, hidle⟩ :=
        exists_sound_round stop commaAllowed (List.cons_ne_nil t ts)
      have htaken := List.length_pos_of_ne_nil hsound.span_ne_nil
      have hlength : (t :: ts).length = r.span.length + rest.length := by
        rw [hspan, List.length_append]
      rw [rounds, hround]
      simp only [hlength, Nat.add_sub_cancel]
      rw [hspan] at hround ⊢
      rw [List.take_left]
      exact .next hround hsound hidle (ih _ (by omega) true rest rfl)

section

variable {commaAllowed : Bool} {ts : List Token} {rs : List Round}

theorem Run.flatten_span (h : Run stop commaAllowed ts rs) : (rs.map (·.span)).flatten = ts := by
  induction h with
  | done => rfl
  | next _ _ _ _ ih => rw [List.map_cons, List.flatten_cons, ih]

theorem Run.eq_nil (h : Run stop commaAllowed [] rs) : rs = [] := by
  generalize hts : ([] : List Token) = ts at h
  cases h with
  | done => rfl
  | next _ hsound _ _ => exact absurd (List.append_eq_nil_iff.mp hts.symm).1 hsound.span_ne_nil

/-- The outcomes of the rounds are those of the blocks. -/
theorem Run.filterMap_outcome (h : Run stop commaAllowed ts rs) :
    rs.filterMap (·.outcome) = blocks stop commaAllowed ts := by
  induction h with
  | done => rw [blocks_nil]; rfl
  | @next commaAllowed r rest more hround _ _ _ ih =>
    rw [blocks_eq_firstBlock]
    rw [round] at hround
    cases hinside : (if commaAllowed = true then skip .comma (r.span ++ rest) else r.span ++ rest)
      with
    | nil =>
      rw [hinside] at hround
      obtain ⟨hnone, rfl⟩ := Prod.mk.inj hround
      rw [List.filterMap_cons_none hnone.symm, ih, blocks_nil]
      rfl
    | cons t ts =>
      rw [hinside, found] at hround
      rw [firstBlock]
      rcases hread : run (endpoint stop) (t :: ts) with e | ⟨a, left⟩
      · rw [hread] at hround
        obtain ⟨herror, rfl⟩ := Prod.mk.inj hround
        rw [List.filterMap_cons_some herror.symm, ih]
      · rw [hread] at hround
        obtain ⟨hok, rfl⟩ := Prod.mk.inj hround
        rw [List.filterMap_cons_some hok.symm, ih]

/-- Errors are at places in the order of the list, each at a place of its own. -/
theorem Run.location_sublist (h : Run stop commaAllowed ts rs) :
    ((rs.filterMap Round.error?).map (·.location)).Sublist (ts.map (·.location) ++ [stop]) := by
  induction h with
  | done => exact List.nil_sublist _
  | @next commaAllowed r rest more _ hsound _ hmore ih =>
    rw [List.map_append, List.append_assoc]
    cases herror : r.error? with
    | none =>
      rw [List.filterMap_cons_none herror]
      exact ih.trans (List.sublist_append_right _ _)
    | some e =>
      rw [List.filterMap_cons_some herror, List.map_cons]
      rcases hsound.error_at e (Round.error?_eq_some_iff.mp herror) with hmem | ⟨hstop, rfl⟩
      · exact (List.singleton_sublist.mpr hmem).append ih
      · rw [hmore.eq_nil, hstop]
        exact List.sublist_append_right _ _

/-- What the rounds are, in the order in which they come. -/
theorem Run.sound (h : Run stop commaAllowed ts rs) {before after : List Round} {r : Round}
    (hrs : rs = before ++ r :: after) :
    (∃ rest, r.Sound stop rest ∧ (rest = [] → after = [])) ∧
      (r.outcome = none → commaAllowed = true ∨ before ≠ []) := by
  induction h generalizing before with
  | done => cases List.append_eq_nil_iff.mp hrs.symm |>.2
  | @next commaAllowed r' rest more _ hsound hidle hmore ih =>
    cases before with
    | nil =>
      obtain ⟨rfl, rfl⟩ := List.cons.inj hrs
      refine ⟨⟨rest, hsound, ?_⟩, fun hnone => Or.inl (hidle hnone)⟩
      rintro rfl
      exact hmore.eq_nil
    | cons first before =>
      obtain ⟨rfl, hrest⟩ := List.cons.inj hrs
      exact ⟨(ih hrest).1, fun _ => Or.inr (List.cons_ne_nil _ _)⟩

end

end Parser

section

variable (unit : String) (list : TokenList)

theorem endpoints_ofTokens : (ofTokens unit list).source.endpoints =
    (Parser.rounds list.stop false list.tokens).filterMap (·.endpoint?) := by
  have hblocks := (Parser.run_rounds list.stop false list.tokens).filterMap_outcome
  simp only [ofTokens, ← hblocks, List.filterMap_filterMap]
  rfl

theorem errors_ofTokens : (ofTokens unit list).errors =
    (Parser.rounds list.stop false list.tokens).filterMap (·.error?) := by
  have hblocks := (Parser.run_rounds list.stop false list.tokens).filterMap_outcome
  simp only [ofTokens, ← hblocks, List.filterMap_filterMap]
  rfl

end

/-- The rounds take all the tokens, one after another and each at least one.  A round finds one
endpoint or one error, but for a comma at the end of the text, which is the last round and finds
nothing.  An error is at a token of its round or, in the last round, at the end of the text, so that
errors come in the order of their places. -/
theorem rounds_of_tokens (unit : String) (list : TokenList) :
    let rounds := Parser.rounds list.stop false list.tokens
    let parsed := ofTokens unit list
    (rounds.map (·.span)).flatten = list.tokens ∧
    (∀ before r after, rounds = before ++ r :: after → r.span ≠ [] ∧
      ((∃ endpoint, r.outcome = some (.ok endpoint)) ∨
        (∃ e, r.outcome = some (.error e) ∧
          (e.location ∈ r.span.map (·.location) ∨ e.location = list.stop ∧ after = [])) ∨
        r.outcome = none ∧ r.span.map (·.lexeme) = [.punct .comma] ∧ before ≠ [] ∧ after = [])) ∧
    parsed.source.endpoints = rounds.filterMap (·.endpoint?) ∧
    parsed.errors = rounds.filterMap (·.error?) ∧
    (parsed.errors.map (·.location)).Sublist list.places ∧
    (list.places.Pairwise (·.offset < ·.offset) →
      parsed.errors.Pairwise (·.location.offset < ·.location.offset)) := by
  intro rounds parsed
  have hrun := Parser.run_rounds list.stop false list.tokens
  have herrors := errors_ofTokens unit list
  have hplaces : (parsed.errors.map (·.location)).Sublist list.places := by
    rw [herrors]
    exact hrun.location_sublist
  refine ⟨hrun.flatten_span, ?_, endpoints_ofTokens unit list, herrors, hplaces,
    fun hincreasing => ?_⟩
  · intro before r after hrs
    obtain ⟨⟨rest, hsound, hlast⟩, hidle⟩ := hrun.sound hrs
    refine ⟨hsound.span_ne_nil, ?_⟩
    rcases houtcome : r.outcome with _ | (e | endpoint)
    · obtain ⟨hcomma, hrest⟩ := hsound.idle houtcome
      have hbefore := (hidle houtcome).resolve_left Bool.false_ne_true
      exact Or.inr (Or.inr ⟨rfl, hcomma, hbefore, hlast hrest⟩)
    · exact Or.inr (Or.inl ⟨e, rfl, (hsound.error_at e houtcome).imp_right
        fun h => ⟨h.1, hlast h.2⟩⟩)
    · exact Or.inl ⟨endpoint, rfl⟩
  · have hsorted := hincreasing.sublist hplaces
    rw [List.pairwise_map] at hsorted
    exact hsorted

/-- Brackets that match nothing: one round for what closes before anything opens, one for a pair of
different kinds, one for the comma. -/
theorem stray_brackets_in_order :
    let mark : Punct → Nat → Token := fun mark offset => ⟨.punct mark, { offset }⟩
    let list : TokenList := ⟨[mark .rightParen 0, mark .leftParen 1, mark .rightBracket 2,
      mark .comma 3], { offset := 4 }⟩
    list.places.Pairwise (·.offset < ·.offset) ∧
      (ofTokens "a" list).errors.map (·.location.offset) = [0, 1] ∧
      (ofTokens "a" list).errors.Pairwise (·.location.offset < ·.location.offset) := by
  intro mark list
  have hincreasing : list.places.Pairwise (·.offset < ·.offset) := by decide
  refine ⟨hincreasing, ?_, ?_⟩
  · decide +kernel
  · obtain ⟨-, -, -, -, -, hsorted⟩ := rounds_of_tokens "a" list
    exact hsorted hincreasing

/-- A comma may end a text, and its round comes to nothing. -/
theorem trailing_comma_finds_nothing :
    ∃ list, Lexer.tokenize "[A:\x7b\x7d]," "a" = .ok list ∧
      ¬ ∀ r ∈ Parser.rounds list.stop false list.tokens,
        (∃ endpoint, r.outcome = some (.ok endpoint)) ∨ ∃ e, r.outcome = some (.error e) := by
  let place : Nat → Location := fun offset => ⟨"a", 1, offset + 1, offset⟩
  let list : TokenList := ⟨[⟨.punct .leftBracket, place 0⟩, ⟨.ident "A", place 1⟩,
    ⟨.punct .colon, place 2⟩, ⟨.punct .leftBrace, place 3⟩, ⟨.punct .rightBrace, place 4⟩,
    ⟨.punct .rightBracket, place 5⟩, ⟨.punct .comma, place 6⟩], place 7⟩
  refine ⟨list, by decide +kernel, fun hall => ?_⟩
  have hany : (Parser.rounds list.stop false list.tokens).any (·.outcome.isNone) = true := by
    decide +kernel
  obtain ⟨r, hr, hnone⟩ := List.any_eq_true.mp hany
  have houtcome := Option.isNone_iff_eq_none.mp hnone
  rcases hall r hr with ⟨endpoint, h⟩ | ⟨e, h⟩
  · cases houtcome.symm.trans h
  · cases houtcome.symm.trans h

end Tree
end EndpointDsl
