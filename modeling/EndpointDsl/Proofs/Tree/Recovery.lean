import EndpointDsl.Proofs.Tree.Locality
import Mathlib.Algebra.Ring.Int.Defs

/-!
A block is read the same whatever stands around it.

Inside a block the depth is positive, so its endpoint fails inside the block or reads it to its last
token.  The scan that follows a failure counts the same depth and stops at the same token.  The
blocks of a list are thus read one by one.
-/

namespace EndpointDsl

/-! ## Blocks -/

/-- What a token adds to the depth. -/
def Token.weight (t : Token) : Int :=
  if t.lexeme.isOpener then 1 else if t.lexeme.isCloser then -1 else 0

namespace Tree

/-- The opening brackets less the closing ones, of whatever kind. -/
def depth (ts : List Token) : Int := (ts.map (·.weight)).sum

/-- A block starts with an opening bracket, and its depth is zero again at its last token for the
first time. -/
structure IsBlock (ts : List Token) : Prop where
  opens : ts.head?.any (·.lexeme.isOpener) = true
  closed : depth ts = 0
  open_before : ∀ k < ts.length, 0 < k → depth (ts.take k) ≠ 0

instance (ts : List Token) : Decidable (IsBlock ts) :=
  decidable_of_iff (ts.head?.any (·.lexeme.isOpener) = true ∧ depth ts = 0 ∧
      ∀ k < ts.length, 0 < k → depth (ts.take k) ≠ 0)
    ⟨fun h => ⟨h.1, h.2.1, h.2.2⟩, fun h => ⟨h.opens, h.closed, h.open_before⟩⟩

/-- Blocks one after another, with at most one comma between neighbours. -/
inductive Joined : List (List Token) → List Token → Prop
  | none : Joined [] []
  | last {block : List Token} (hblock : IsBlock block) : Joined [block] block
  | next {block next : List Token} {more : List (List Token)} {ts : List Token}
      (hblock : IsBlock block) (h : Joined (next :: more) ts) :
      Joined (block :: next :: more) (block ++ ts)
  | comma {block next : List Token} {more : List (List Token)} {ts : List Token}
      (hblock : IsBlock block) (place : Location) (h : Joined (next :: more) ts) :
      Joined (block :: next :: more) (block ++ ⟨.punct .comma, place⟩ :: ts)

theorem IsBlock.ne_comma {block : List Token} (hblock : IsBlock block) (rest : List Token)
    (place : Location) (more : List Token) : block ++ rest ≠ ⟨.punct .comma, place⟩ :: more := by
  intro heq
  cases block with
  | nil => cases hblock.opens
  | cons t front =>
    cases heq
    cases hblock.opens

theorem Joined.ne_comma {blockList : List (List Token)} {ts : List Token} (h : Joined blockList ts)
    (place : Location) (more : List Token) : ts ≠ ⟨.punct .comma, place⟩ :: more := by
  cases h with
  | none => exact fun heq => by cases heq
  | last hblock => simpa using hblock.ne_comma [] place more
  | next hblock h => exact hblock.ne_comma _ place more
  | comma hblock _ h => exact hblock.ne_comma _ place more

theorem Joined.isBlock {blockList : List (List Token)} {ts : List Token} (h : Joined blockList ts)
    {block : List Token} (hmem : block ∈ blockList) : IsBlock block := by
  induction h with
  | none => cases hmem
  | last hblock =>
    cases List.mem_singleton.mp hmem
    exact hblock
  | next hblock _ ih =>
    rcases List.mem_cons.mp hmem with rfl | hmem
    · exact hblock
    · exact ih hmem
  | comma hblock _ _ ih =>
    rcases List.mem_cons.mp hmem with rfl | hmem
    · exact hblock
    · exact ih hmem

/-! ## The brackets of a block -/

theorem depthFrom_eq_add_weight (t : Token) (d : Nat) :
    (t.lexeme.depthFrom (d + 1) : Int) = (d + 1 : Nat) + t.weight := by
  simp only [Lexeme.depthFrom, Token.weight]
  by_cases hopener : t.lexeme.isOpener = true
  · rw [if_pos hopener, if_pos hopener]
    omega
  · rw [if_neg hopener, if_neg hopener]
    split <;> omega

theorem depth_cons (t : Token) (rest : List Token) : depth (t :: rest) = t.weight + depth rest := by
  rw [depth, List.map_cons, List.sum_cons]
  rfl

/-- Depth changes by at most one at a token, so that it stays positive until it is zero. -/
theorem closing_of_depth {ts : List Token} {d : Nat} (hclosed : (d : Int) + depth ts = 0)
    (hopen : ∀ k < ts.length, (d : Int) + depth (ts.take k) ≠ 0) : Closing d ts := by
  induction ts generalizing d with
  | nil =>
    have hd : d = 0 := by
      simp only [depth, List.map_nil, List.sum_nil] at hclosed
      omega
    rw [hd]
    exact .done
  | cons t rest ih =>
    have hpos : d ≠ 0 := by
      have hzero := hopen 0 (Nat.zero_lt_succ _)
      simp only [List.take_zero, depth, List.map_nil, List.sum_nil] at hzero
      omega
    obtain ⟨d, rfl⟩ := Nat.exists_eq_succ_of_ne_zero hpos
    refine .step (ih ?_ fun k hk => ?_)
    · rw [depthFrom_eq_add_weight, ← hclosed, depth_cons]
      omega
    · have hnext := hopen (k + 1) (Nat.succ_lt_succ hk)
      rw [List.take_succ_cons, depth_cons] at hnext
      rw [depthFrom_eq_add_weight]
      omega

theorem IsBlock.exists_closing {ts : List Token} (h : IsBlock ts) :
    ∃ t rest, ts = t :: rest ∧ t.lexeme.isOpener = true ∧ Closing 1 rest := by
  obtain ⟨hopener, hclosed, hopen⟩ := h
  cases ts with
  | nil => cases hopener
  | cons t rest =>
    have hweight : t.weight = 1 := if_pos hopener
    refine ⟨t, rest, rfl, hopener, closing_of_depth ?_ fun k hk => ?_⟩
    · rw [depth_cons, hweight] at hclosed
      exact hclosed
    · have hnext := hopen (k + 1) (Nat.succ_lt_succ hk) (Nat.succ_pos k)
      rw [List.take_succ_cons, depth_cons, hweight] at hnext
      exact hnext

namespace Parser

/-! ## Recovery reads to the end of the block -/

theorem afterBlock_append {d : Nat} {front : List Token} (h : Closing (d + 1) front)
    (rest : List Token) : afterBlock (d + 1) (front ++ rest) = rest := by
  induction front generalizing d with
  | nil => cases h
  | cons t front ih =>
    cases h with
    | step h =>
      rw [List.cons_append, afterBlock]
      rw [Lexeme.depthFrom] at h
      by_cases hopener : t.lexeme.isOpener = true
      · rw [if_pos hopener] at h ⊢
        rw [if_neg (Nat.succ_ne_zero d)]
        exact ih h
      · rw [if_neg hopener] at h ⊢
        by_cases hcloser : t.lexeme.isCloser = true
        · rw [if_pos hcloser] at h ⊢
          cases d with
          | zero =>
            cases h
            rfl
          | succ d =>
            rw [if_neg (by omega)]
            exact ih h
        · rw [if_neg hcloser] at h ⊢
          exact ih h

theorem recover_block {block : List Token} (h : IsBlock block) (rest : List Token) :
    recover (block ++ rest) = rest := by
  obtain ⟨t, front, rfl, hopener, hclosing⟩ := h.exists_closing
  rw [List.cons_append, recover, if_pos hopener]
  exact afterBlock_append hclosing rest


variable {stop stop' : Location}

/-! ## Blocks one after another -/

/-- What comes after the opening bracket of an endpoint is read alike up to the token that closes
it. -/
theorem endpoint_append_of_closing {front : List Token} (hclosing : Closing 1 front) (t : Token)
    (rest rest' : List Token) :
    (∃ e, run (endpoint stop) (t :: front ++ rest) = .error e ∧
      run (endpoint stop') (t :: front ++ rest') = .error e) ∨
    ∃ a, run (endpoint stop) (t :: front ++ rest) = .ok (a, rest) ∧
      run (endpoint stop') (t :: front ++ rest') = .ok (a, rest') := by
  obtain ⟨lexeme, place⟩ := t
  rw [@run_endpoint stop, @run_endpoint stop', List.cons_append, List.cons_append]
  by_cases hopening : lexeme = .punct .leftBracket
  · subst hopening
    rw [run_bind (run_punct_mark .leftBracket .endpointOpening place _),
      run_bind (run_punct_mark .leftBracket .endpointOpening place _)]
    have hinside : ∀ x y : Rule Endpoint, Local front.length 1 (fun _ => 0) x y →
        (∃ e, x (front ++ rest) = .error e ∧ y (front ++ rest') = .error e) ∨
          ∃ a, x (front ++ rest) = .ok (a, rest) ∧ y (front ++ rest') = .ok (a, rest') := by
      intro x y h
      rcases h front (Nat.le_refl _) hclosing rest rest' with hfail | ⟨a, left, hleft, hread⟩
      · exact Or.inl hfail
      · obtain ⟨_ | _, -⟩ := hleft
        exact Or.inr ⟨a, hread⟩
    refine hinside _ _ (local_visibility.bind fun isPublic => ?_)
    refine (local_ident .endpointName).bind fun name => ?_
    refine (local_punct .colon (.colonAfterEndpoint name.cause)).bind fun _ => ?_
    refine (local_punct .leftBrace .endpointBody).bind fun _ => ?_
    refine (local_members fun _ => local_method).bind fun methods => ?_
    exact (local_punct .rightBracket (.endpointClosing name.cause)).bind fun _ => local_pure _
  · exact Or.inl ⟨_, run_bind_error (run_punct_of_ne hopening),
      run_bind_error (run_punct_of_ne hopening)⟩

theorem endpoint_append {block : List Token} (hblock : IsBlock block) (rest rest' : List Token) :
    (∃ e, run (endpoint stop) (block ++ rest) = .error e ∧
      run (endpoint stop') (block ++ rest') = .error e) ∨
    ∃ a, run (endpoint stop) (block ++ rest) = .ok (a, rest) ∧
      run (endpoint stop') (block ++ rest') = .ok (a, rest') := by
  obtain ⟨t, front, rfl, -, hclosing⟩ := hblock.exists_closing
  exact endpoint_append_of_closing hclosing t rest rest'

/-- A block comes to one outcome, wherever it stands and whatever follows it. -/
theorem exists_outcome {block : List Token} (hblock : IsBlock block) :
    ∃ result : Except SyntaxError Endpoint, ∀ stop rest,
      firstBlock stop (block ++ rest) = result :: blocks stop true rest := by
  have hrecover := recover_block hblock
  have happend := fun stop rest => @endpoint_append default stop _ hblock [] rest
  obtain ⟨t, front, rfl, -, -⟩ := hblock.exists_closing
  -- The outcome is named after one place for the end, with nothing after the block.
  rcases h : run (endpoint default) (t :: front ++ []) with e | ⟨a, left⟩
  · refine ⟨.error e, fun stop rest => ?_⟩
    rcases happend stop rest with ⟨e', halone, hread⟩ | ⟨a, halone, -⟩
    · cases h.symm.trans halone
      have hafter := hrecover rest
      rw [List.cons_append] at hread hafter ⊢
      rw [firstBlock, hread]
      exact congrArg (fun ts => Except.error e :: blocks stop true ts) hafter
    · cases h.symm.trans halone
  · refine ⟨.ok a, fun stop rest => ?_⟩
    rcases happend stop rest with ⟨e, halone, -⟩ | ⟨a', halone, hread⟩
    · cases h.symm.trans halone
    · cases h.symm.trans halone
      rw [List.cons_append] at hread ⊢
      rw [firstBlock, hread]

theorem blocks_eq_outcome {block : List Token} (hblock : IsBlock block)
    {result : Except SyntaxError Endpoint}
    (hresult : ∀ stop rest, firstBlock stop (block ++ rest) = result :: blocks stop true rest)
    (stop : Location) : blocks stop false block = [result] := by
  have halone : blocks stop false block = firstBlock stop block :=
    blocks_of_ne fun place more => by simpa using hblock.ne_comma [] place more
  rw [halone, ← List.append_nil block, hresult, blocks_nil]

theorem firstBlock_append {block : List Token} (hblock : IsBlock block) (stop alone : Location)
    (rest : List Token) :
    firstBlock stop (block ++ rest) = blocks alone false block ++ blocks stop true rest := by
  obtain ⟨result, hresult⟩ := exists_outcome hblock
  rw [hresult, blocks_eq_outcome hblock hresult]
  rfl

theorem firstBlock_joined {blockList : List (List Token)} {ts : List Token}
    (h : Joined blockList ts) (stop : Location) (ends : List Token → Location) :
    firstBlock stop ts = blockList.flatMap fun block => blocks (ends block) false block := by
  induction h with
  | none => rfl
  | @last block hblock =>
    rw [← List.append_nil block, firstBlock_append hblock stop (ends block), blocks_nil,
      List.append_nil, List.append_nil]
    simp
  | next hblock h ih =>
    rw [firstBlock_append hblock stop, blocks_of_ne h.ne_comma, ih]
    rfl
  | comma hblock place h ih =>
    rw [firstBlock_append hblock stop, blocks_comma, ih]
    rfl

end Parser

/-- Each block comes to one endpoint or one error, the same as by itself, whatever the blocks around
it come to. -/
theorem ofTokens_joined {blockList : List (List Token)} {ts : List Token} (h : Joined blockList ts)
    (unit : String) (stop : Location) (ends : List Token → Location) :
    (ofTokens unit ⟨ts, stop⟩).source.endpoints =
      (blockList.flatMap fun block => (ofTokens unit ⟨block, ends block⟩).source.endpoints) ∧
    (ofTokens unit ⟨ts, stop⟩).errors =
      (blockList.flatMap fun block => (ofTokens unit ⟨block, ends block⟩).errors) ∧
    ∀ block ∈ blockList,
      (∃ endpoint, (ofTokens unit ⟨block, ends block⟩).source.endpoints = [endpoint] ∧
        (ofTokens unit ⟨block, ends block⟩).errors = []) ∨
      ∃ error, (ofTokens unit ⟨block, ends block⟩).source.endpoints = [] ∧
        (ofTokens unit ⟨block, ends block⟩).errors = [error] := by
  have hall : Parser.blocks stop false ts = blockList.flatMap fun block =>
      Parser.blocks (ends block) false block :=
    (Parser.blocks_of_ne h.ne_comma).trans (Parser.firstBlock_joined h stop ends)
  refine ⟨?_, ?_, fun block hmem => ?_⟩
  · simp only [ofTokens, hall, List.filterMap_flatMap]
  · simp only [ofTokens, hall, List.filterMap_flatMap]
  · obtain ⟨result, hresult⟩ := Parser.exists_outcome (h.isBlock hmem)
    simp only [ofTokens, Parser.blocks_eq_outcome (h.isBlock hmem) hresult]
    cases result with
    | ok endpoint => exact Or.inl ⟨endpoint, rfl, rfl⟩
    | error error => exact Or.inr ⟨error, rfl, rfl⟩

/-- The brackets of a block need not match: `( ]` is one, and breaks no block around it. -/
theorem mismatched_block_apart :
    let mark : Punct → Token := fun mark => ⟨.punct mark, default⟩
    let whole := [mark .leftBracket, ⟨.ident "A", default⟩, mark .colon, mark .leftBrace,
      mark .rightBrace, mark .rightBracket]
    let broken := [mark .leftParen, mark .rightBracket]
    (ofTokens "a" ⟨whole ++ mark .comma :: (broken ++ whole), default⟩).errors =
      [whole, broken, whole].flatMap fun block => (ofTokens "a" ⟨block, default⟩).errors := by
  intro mark whole broken
  have hwhole : IsBlock whole := by decide
  have hbroken : IsBlock broken := by decide
  have hjoined : Joined [whole, broken, whole] (whole ++ mark .comma :: (broken ++ whole)) :=
    .comma hwhole default (.next hbroken (.last hwhole))
  exact (ofTokens_joined hjoined "a" default fun _ => default).2.1

end Tree
end EndpointDsl
