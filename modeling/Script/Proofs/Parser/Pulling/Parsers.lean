import Script.Proofs.Parser.Pulling.Agreement

/-!
# The parsers that pull, one by one

Each parser that pulls agrees with the parser of the stream, given that the parsers of the
expressions and blocks inside agree. A number of levels bounds the one and a depth the other, and
the two always sum up to the nesting that is allowed; so where no level is left, the depth has come
to its limit. The loops have no bound in the one and a bound that suffices in the other, so that
each round of both leaves less.

* `matches_operators`: the operators around an expression, each a level deeper;
* `agrees_expression_block`: expressions and blocks;
* `agrees_program`: whole programs.
-/

namespace Script.Pull

variable {α : Type} {readings : List Reading} {d : Nat} {S : Puller} {s : ParserState}
  {token : Token} {span : Span} {rest : List Lexeme}

/-! ### Pieces of expressions -/

/-- What a lexeme announces is taken with it. -/
theorem matches_expect_bind {f : Span → Pull α} {q : Parse α} (h : S.Shows readings s)
    (hd : S.depth = d) (hs : s.lexemes = ⟨token, span⟩ :: rest)
    (hf : Agrees readings d (f span) q) :
    Matches readings (· = d) ((expect token >>= f) S) ((Parse.advance >>= fun _ => q) s) := by
  obtain ⟨S', hexpect, hshows, hdepth⟩ := exists_expect h hs
  rw [bind_apply hexpect]
  exact hf S' s.advance hshows (hdepth.trans hd)

section Pieces

variable {expression : Precedence → Pull Expr} {expression' : Precedence → Parse Expr}
  {block : Pull Block} {block' : Parse Block}
  (htakes : ∀ place, Parse.Takes (expression' place))
  (hexp : ∀ place, Agrees readings d (expression place) (expression' place))
  (hblock : Agrees readings d block block')

include hexp in
theorem agrees_pair :
    Agrees readings d (pair (expression .lowest)) (Parse.pair (expression' .lowest)) :=
  (hexp _).bind fun _ => (agrees_expect (by simp)).bind fun _ => (hexp _).bind fun _ => .pure _

include hblock in
theorem matches_function (h : S.Shows readings s) (hd : S.depth = d)
    (hs : s.lexemes = ⟨.keyword .functionWord, span⟩ :: rest) :
    Matches readings (· = d) (function block S)
      ((Parse.advance >>= fun _ => Parse.function block' span.start) s) := by
  have hparameters : Agrees readings d (list expectName .rightParen)
      (Parse.list Parse.expectName .rightParen) :=
    agrees_list Parse.takes_expectName agrees_expectName _
  exact matches_expect_bind h hd hs <| (agrees_expect (by simp)).bind fun _ =>
    hparameters.bind fun _ => hblock.bind fun _ => .pure _

include hexp in
theorem matches_unary (op : UnaryOp) (h : S.Shows readings s) (hd : S.depth = d)
    (hs : s.lexemes = ⟨token, span⟩ :: rest) :
    Matches readings (· = d) (unary expression op S)
      ((Parse.advance >>= fun _ => Parse.unary expression' op span.start) s) :=
  matches_nextToken_bind h hd hs <| (hexp _).bind fun _ => .pure _

include hexp in
theorem matches_group (h : S.Shows readings s) (hd : S.depth = d)
    (hs : s.lexemes = ⟨token, span⟩ :: rest) :
    Matches readings (· = d) (group expression S) ((Parse.advance >>= fun _ =>
      expression' .lowest >>= fun inner => Parse.expect (.symbol .rightParen) >>= fun _ =>
        pure inner) s) :=
  (matches_step h hd hs).andThen fun _ => (hexp _).bind fun _ =>
    (agrees_expect (by simp)).bind fun _ => .pure _

include htakes hexp in
theorem matches_array (h : S.Shows readings s) (hd : S.depth = d)
    (hs : s.lexemes = ⟨.symbol .leftBracket, span⟩ :: rest) :
    Matches readings (· = d) (array expression S) ((Parse.advance >>= fun _ =>
      Parse.list (expression' .lowest) .rightBracket >>= fun r =>
        pure (.array r.1 ⟨span.start, r.2⟩)) s) :=
  matches_expect_bind h hd hs <| (agrees_list (htakes _) (hexp _) _).bind fun _ => .pure _

include htakes hexp in
theorem matches_map (h : S.Shows readings s) (hd : S.depth = d)
    (hs : s.lexemes = ⟨.symbol .leftBrace, span⟩ :: rest) :
    Matches readings (· = d) (map expression S) ((Parse.advance >>= fun _ =>
      Parse.list (Parse.pair (expression' .lowest)) .rightBrace >>= fun r =>
        pure (.map r.1 ⟨span.start, r.2⟩)) s) :=
  matches_expect_bind h hd hs <|
    (agrees_list (Parse.takes_pair (htakes _)) (agrees_pair hexp) _).bind fun _ => .pure _

include htakes hexp hblock in
/-- An expression begins with its lexeme, on which both decide. -/
theorem agrees_primary :
    Agrees readings d (primary expression block) (Parse.primary expression' block') := by
  intro S s h hd
  rw [primary, get_bind, Parse.primary, Script.get_bind]
  cases hs : s.lexemes with
  | nil =>
    -- The stream has ended: the puller has nothing in front, or the end of the text.
    rcases h.current_of_nil hs with hcurrent | ⟨span, hcurrent⟩ <;>
    · rw [hcurrent]
      exact matches_failAtEnd h hd hs
  | cons x rest =>
    rw [h.current_of_cons hs]
    have hne := h.token_ne_eof hs
    obtain ⟨token, span⟩ := x
    have hatom (e : Expr) : Matches readings (· = d) (atom e S)
        ((Parse.advance >>= fun _ => pure e) s) :=
      (matches_step h hd hs).andThen fun _ => .pure e
    cases token with
    | name text => exact hatom _
    | integer value => exact hatom _
    | string value => exact hatom _
    | comment => exact .error _ h hd
    | eof => exact absurd rfl hne
    | keyword word =>
      cases word with
      | trueWord => exact hatom _
      | falseWord => exact hatom _
      | functionWord => exact matches_function hblock h hd hs
      | _ => exact .error _ h hd
    | symbol sign =>
      cases sign with
      | leftParen => exact matches_group hexp h hd hs
      | leftBracket => exact matches_array htakes hexp h hd hs
      | leftBrace => exact matches_map htakes hexp h hd hs
      | plus => exact matches_unary hexp .plus h hd hs
      | minus => exact matches_unary hexp .minus h hd hs
      | bang => exact matches_unary hexp .not h hd hs
      | _ => exact .error _ h hd

include htakes hexp in
/-- An operator wraps what is in front of it, with what comes after. -/
theorem matches_wrap (left : Expr) (op : Operator) (h : S.Shows readings s) (hd : S.depth = d)
    (hop : s.operator? = some op) :
    Matches readings (· = d) (wrap expression left op S) (Parse.wrap expression' left op s) := by
  obtain ⟨span, rest, hs⟩ := ParserState.exists_cons_of_operator? hop
  cases op with
  | call =>
    exact matches_expect_bind h hd hs <| (agrees_list (htakes _) (hexp _) _).bind fun _ => .pure _
  | index =>
    exact matches_expect_bind h hd hs <| (hexp _).bind fun _ =>
      (agrees_expect (by simp)).bind fun _ => .pure _
  | assign => exact matches_nextToken_bind h hd hs <| (hexp _).bind fun _ => .pure _
  | binary op => exact matches_nextToken_bind h hd hs <| (hexp _).bind fun _ => .pure _

end Pieces

/-! ### Nesting -/

theorem enter_apply (h : S.depth < maxNesting) :
    enter S = some (.ok (), { S with depth := S.depth + 1 }) := by
  rw [enter, get_bind]
  show (if maxNesting < S.depth + 1 then throw S.depthError else pure () : Pull Unit) _ = _
  rw [if_neg (by omega)]
  rfl

theorem enter_apply_tooDeep (h : maxNesting ≤ S.depth) :
    enter S = some (.error S.depthError, { S with depth := S.depth + 1 }) := by
  rw [enter, get_bind]
  show (if maxNesting < S.depth + 1 then throw S.depthError else pure () : Pull Unit) _ = _
  rw [if_pos (by omega)]
  rfl

/-- One level deeper, and back: whatever depth the parser inside has gone to. -/
theorem agrees_nested {p : Pull α} {q : Parse α} (hd : d < maxNesting)
    (h : ∀ S s, S.Shows readings s → S.depth = d + 1 →
      Matches readings (fun _ => True) (p S) (q s)) :
    Agrees readings d (nested p) q := by
  intro S s hshows hdepth
  have hinner := h _ s (hshows.withDepth (S.depth + 1)) (congrArg (· + 1) hdepth)
  rw [nested, bind_apply (enter_apply (hdepth ▸ hd))]
  generalize p { S with depth := S.depth + 1 } = outcome at hinner ⊢
  generalize q s = result at hinner ⊢
  cases hinner with
  | ok a h => exact .ok a (h.withDepth S.depth) hdepth
  | error error h => exact .error error (h.withDepth S.depth) hdepth

/-- Where no level is left neither goes any deeper. -/
theorem agrees_nested_failTooDeep {p : Pull α} :
    Agrees readings maxNesting (nested p) (Parse.failTooDeep : Parse α) := by
  intro S s hshows hdepth
  rw [nested, bind_apply_error (enter_apply_tooDeep (Nat.le_of_eq hdepth.symm)),
    hshows.depthError_eq]
  exact .error _ ((hshows.withDepth _).withDepth S.depth) hdepth

/-! ### Operators -/

theorem operatorsWithin_of_le {expression : Precedence → Pull Expr} {place : Precedence} (n : Nat)
    (left : Expr) (h : S.Shows readings s) (hle : s.precedence.rank ≤ place.rank) :
    operatorsWithin expression place (n + 1) left S = some (.ok left, S) := by
  rw [operatorsWithin, get_bind, h.operator?_eq]
  cases hop : s.operator? with
  | none => rfl
  | some op =>
    have hloose : ¬ place.rank < op.precedence.rank := by
      rw [ParserState.precedence, hop] at hle
      exact Nat.not_lt.2 hle
    dsimp only
    rw [if_neg hloose]
    rfl

theorem operatorsWithin_of_lt {expression : Precedence → Pull Expr} {place : Precedence}
    {op : Operator} (n : Nat) (left : Expr) (h : S.Shows readings s) (hop : s.operator? = some op)
    (hlt : place.rank < op.precedence.rank) :
    operatorsWithin expression place (n + 1) left S =
      (enter >>= fun _ => wrap expression left op >>=
        fun wrapped => operatorsWithin expression place n wrapped) S := by
  rw [operatorsWithin, get_bind, h.operator?_eq, hop]
  dsimp only
  rw [if_pos hlt]

/-- The operators around an expression: each goes one level deeper than the one in front of it,
so they come out at any depth. -/
theorem matches_operatorsWithin {expression : Precedence → Pull Expr} (place : Precedence) :
    ∀ (n levels d : Nat) (left : Expr) (S : Puller) (s : ParserState),
      s.lexemes.length < n → d + levels = maxNesting →
      (∀ l < levels, ∀ e, e + l = maxNesting →
        ∀ place, Agrees readings e (expression place) (Parse.expression l place)) →
      S.Shows readings s → S.depth = d →
      Matches readings (fun _ => True) (operatorsWithin expression place n left S)
        (Parse.operators levels place left s)
  | 0, _, _, _, _, _, hn, _, _, _, _ => by omega
  | n + 1, levels, d, left, S, s, hn, hd, hexp, h, hdepth => by
    by_cases hle : s.precedence.rank ≤ place.rank
    · rw [operatorsWithin_of_le n left h hle, Parse.operators_eq_ok levels left hle]
      exact .ok left h trivial
    obtain ⟨op, hop, hlt⟩ := Parse.exists_operator?_of_lt (Nat.lt_of_not_le hle)
    rw [operatorsWithin_of_lt n left h hop hlt]
    -- No level left is a full depth on the other side.
    cases levels with
    | zero =>
      rw [Parse.operators_zero_of_lt left hop hlt,
        bind_apply_error (enter_apply_tooDeep (by omega)), h.depthError_eq]
      exact .error _ (h.withDepth _) trivial
    | succ levels =>
      rw [Parse.operators_succ_of_lt levels left hop hlt, bind_apply (enter_apply (by omega))]
      have hinner := hexp levels (Nat.lt_succ_self _) (d + 1) (by omega)
      refine (matches_wrap (Parse.takes_expression levels) hinner left op
        (h.withDepth (S.depth + 1)) (congrArg (· + 1) hdepth) hop).bind (fun _ _ => trivial) ?_
      intro wrapped S' s' hwrapped h' hd'
      -- The operator is taken, so the rest is shorter.
      have hless := Parse.length_lt_of_wrap hop hwrapped
      exact matches_operatorsWithin place n levels (d + 1) wrapped S' s' (by omega) (by omega)
        (fun l hl => hexp l (by omega)) h' hd'

theorem matches_operators {expression : Precedence → Pull Expr} {levels : Nat}
    (place : Precedence) (left : Expr) (hd : d + levels = maxNesting)
    (hexp : ∀ l < levels, ∀ e, e + l = maxNesting →
      ∀ place, Agrees readings e (expression place) (Parse.expression l place))
    (h : S.Shows readings s) (hdepth : S.depth = d) :
    Matches readings (fun _ => True) (operators expression place left S)
      (Parse.operators levels place left s) := by
  rw [operators, get_bind]
  exact matches_operatorsWithin place S.rounds levels d left S s h.length_lt_rounds hd hexp h
    hdepth

/-! ### Pieces of nodes -/

section Nodes

variable {expression : Pull Expr} {expression' : Parse Expr} {block : Pull Block}
  {block' : Parse Block} (htakes : Parse.Takes expression') (htakesBlock : Parse.Takes block')
  (hexp : Agrees readings d expression expression') (hblock : Agrees readings d block block')

include hexp in
theorem agrees_binding : Agrees readings d (binding expression) (Parse.binding expression') :=
  (agrees_expect (by simp)).bind fun _ => agrees_expectName.bind fun _ =>
    (agrees_expect (by simp)).bind fun _ => hexp.bind fun _ => .pure _

include hexp in
theorem agrees_returning :
    Agrees readings d (returning expression) (Parse.returning expression') := by
  refine (agrees_expect (by simp)).bind fun opening S s h hd => ?_
  rw [get_bind, Script.get_bind, h.current_eq]
  split
  · exact .ok _ h hd
  · exact hexp.bind (fun _ => .pure _) S s h hd

include htakes htakesBlock hexp hblock in
/-- An `if`: those that follow it after `else` have less before them. -/
theorem matches_conditionalWithin : ∀ (n : Nat) (S : Puller) (s : ParserState),
    s.lexemes.length < n → S.Shows readings s → S.depth = d →
    Matches readings (· = d) (conditionalWithin expression block n S)
      (Parse.conditional expression' block' s)
  | 0, _, _, hn, _, _ => by omega
  | n + 1, S, s, hn, h, hd => by
    rw [conditionalWithin, Parse.conditional_apply htakes htakesBlock]
    refine (agrees_expect (by simp) S s h hd).bind (fun _ => id) ?_
    intro opening S₁ s₁ hopening h₁ hd₁
    refine (hexp S₁ s₁ h₁ hd₁).bind (fun _ => id) ?_
    intro condition S₂ s₂ hcondition h₂ hd₂
    refine (hblock S₂ s₂ h₂ hd₂).bind (fun _ => id) ?_
    intro consequence S₃ s₃ hconsequence h₃ hd₃
    refine matches_comes_bind (by simp) h₃ hd₃ (fun hcomes S₄ h₄ hd₄ => ?_) fun _ => .ok _ h₃ hd₃
    -- For the induction: what has been taken so far leaves less in front of the next `if`.
    have hlt₁ := (Parse.consumes_of_expect hopening).length_lt (by simp)
    have hle₂ := htakes.length_le hcondition
    have hle₃ := htakesBlock.length_le hconsequence
    have hlt₄ := Parse.length_advance_lt (by simp) hcomes
    rw [Parse.alternative, bind_assoc]
    refine (agrees_comes _ S₄ _ h₄ hd₄).bind (fun _ => id) ?_
    intro comesIf S₅ s₅ hs₅ h₅ hd₅
    obtain rfl : s₃.advance = s₅ := by
      cases hs₅
      rfl
    cases comesIf with
    | true =>
      rw [if_pos rfl, if_pos rfl, bind_assoc]
      exact (matches_conditionalWithin n S₅ _ (by omega) h₅ hd₅).andThen fun _ => .pure _
    | false => exact (hblock S₅ _ h₅ hd₅).andThen fun _ => .pure _

include htakes htakesBlock hexp hblock in
theorem agrees_conditional :
    Agrees readings d (conditional expression block) (Parse.conditional expression' block') := by
  intro S s h hd
  rw [conditional, get_bind]
  exact matches_conditionalWithin htakes htakesBlock hexp hblock S.rounds S s h.length_lt_rounds h
    hd

include htakes htakesBlock hexp hblock in
theorem agrees_node :
    Agrees readings d (node expression block) (Parse.node expression' block') := by
  intro S s h hd
  have hother : Matches readings (· = d) ((Node.expression <$> expression) S)
      ((Node.expression <$> expression') s) :=
    hexp.map _ S s h hd
  rw [node, Parse.node, get_bind, Script.get_bind, h.current_eq]
  cases hx : s.lookahead? with
  | none => exact matches_failAtEnd h hd (h.lexemes_eq_nil (by simp [hx]))
  | some x =>
    obtain ⟨token, span⟩ := x
    cases token with
    | keyword word =>
      cases word with
      | letWord => exact agrees_binding hexp S s h hd
      | returnWord => exact agrees_returning hexp S s h hd
      | ifWord => exact agrees_conditional htakes htakesBlock hexp hblock S s h hd
      | _ => exact hother
    | _ => exact hother

end Nodes

/-- In a block the brace, outside the end of the text has the same say. -/
theorem terminator_apply {token : Token} {span : Span} (x : Node) (closing? : Option Token)
    (hcurrent : S.current? = some ⟨token, span⟩) (hsemicolon : token ≠ .symbol .semicolon) :
    terminator x closing? S =
      (if (token = closing?.getD .eof || x.endsWithBlock) = true then pure ()
        else if token = .eof then failAtEnd
        else throw ⟨.missingSemicolon, .point S.lastStop⟩) S := by
  rw [terminator, get_bind, hcurrent]
  dsimp only
  rw [if_neg hsemicolon]
  cases closing? with
  | none => by_cases heof : token = .eof <;> simp [heof]
  | some closing =>
    by_cases hclosing : token = closing
    · simp [hclosing]
    · simp [hclosing]

/-- What has to follow a node, in a block or outside. -/
theorem agrees_terminator (x : Node) (closing? : Option Token) :
    Agrees readings d (terminator x closing?) (Parse.terminator x (closing?.getD .eof)) := by
  intro S s h hd
  have hcurrent := h.current_eq
  rw [Parse.terminator, Script.get_bind]
  cases hx : s.lookahead? with
  | none =>
    rw [terminator, get_bind, hcurrent, hx]
    dsimp only
    split
    · exact .ok () h hd
    · exact matches_failAtEnd h hd (h.lexemes_eq_nil (by simp [hx]))
  | some lexeme =>
    obtain ⟨token, span⟩ := lexeme
    rw [hx] at hcurrent
    dsimp only
    by_cases hsemicolon : token = .symbol .semicolon
    · subst hsemicolon
      have hcomes : s.Comes (.symbol .semicolon) := by simp [ParserState.Comes, hx]
      obtain ⟨span, rest, hs⟩ := Parse.exists_cons_of_lookahead (by simp) hcomes
      rw [terminator, get_bind, hcurrent]
      exact matches_step h hd hs
    rw [terminator_apply x closing? hcurrent hsemicolon, if_neg hsemicolon]
    split
    · exact .ok () h hd
    · split
      · next heof => exact matches_failAtEnd h hd (h.lexemes_eq_nil (by simp [hx, heof]))
      · -- a semicolon is missing, behind the last lexeme
        rw [h.lastStop_eq]
        exact .error _ h hd

/-! ### Blocks -/

section Blocks

variable {node : Pull Node} {node' : Parse Node}
  (hshorter : ∀ s x s', node' s = .ok x s' → s'.lexemes.length < s.lexemes.length)
  (hnode : Agrees readings d node node')
include hshorter hnode

theorem matches_nodesWithin : ∀ (n : Nat) (S : Puller) (s : ParserState),
    s.lexemes.length < n → S.Shows readings s → S.depth = d →
    Matches readings (· = d) (nodesWithin node n S) (Parse.nodes node' s)
  | 0, _, _, hn, _, _ => by omega
  | n + 1, S, s, hn, h, hd => by
    rw [nodesWithin, Parse.nodes_apply hshorter, Parse.nodesRound]
    refine (agrees_skipSemicolons S s h hd).bind (fun _ => id) ?_
    intro _ S₁ s₁ hskip h₁ hd₁
    obtain ⟨l, hl, -⟩ := Parse.consumes_of_skipSemicolons hskip
    rw [Parse.nodesBody]
    refine (agrees_comes _ S₁ s₁ h₁ hd₁).bind (fun _ => id) ?_
    intro closes S₂ s₂ hs₂ h₂ hd₂
    obtain rfl : s₁ = s₂ := by
      cases hs₂
      rfl
    cases closes with
    | true => exact ((agrees_expect (by simp)).bind fun close => .pure _) S₂ s₁ h₂ hd₂
    | false =>
      refine (hnode S₂ s₁ h₂ hd₂).bind (fun _ => id) ?_
      intro x S₃ s₃ hx h₃ hd₃
      refine (agrees_terminator x _ S₃ s₃ h₃ hd₃).bind (fun _ => id) ?_
      intro _ S₄ s₄ hterminator h₄ hd₄
      -- A node takes something, so the rest of the block is shorter.
      have hle₁ := hl.length_le
      have hlt₃ := hshorter _ _ _ hx
      have hle₄ := (Parse.takes_terminator x _).length_le hterminator
      exact (matches_nodesWithin n S₄ s₄ (by omega) h₄ hd₄).andThen fun _ => .pure _

theorem agrees_braced : Agrees readings d (braced node) (Parse.braced node') := by
  refine (agrees_expect (by simp)).bind fun opening S s h hd => ?_
  rw [get_bind]
  exact (matches_nodesWithin hshorter hnode S.rounds S s h.length_lt_rounds h hd).andThen
    fun _ => .pure _

end Blocks

/-! ### Expressions and blocks -/

/-- **Expressions and blocks agree** at any depth, as long as more of them may be open at once than
levels are left. -/
theorem agrees_expression_block (readings : List Reading) (levels : Nat) :
    ∀ n d, levels < n → d + levels = maxNesting →
      (∀ place, Agrees readings d (expression n place) (Parse.expression levels place)) ∧
        Agrees readings d (block n) (Parse.block levels) := by
  induction levels using Nat.strongRecOn with
  | ind levels ih =>
    intro n d hn hd
    obtain ⟨n, rfl⟩ : ∃ m, n = m + 1 := ⟨n - 1, by omega⟩
    cases levels with
    | zero =>
      obtain rfl : d = maxNesting := hd
      exact ⟨fun place => agrees_nested_failTooDeep, agrees_nested_failTooDeep⟩
    | succ levels =>
      obtain ⟨hexp, hblock⟩ := ih levels (Nat.lt_succ_self _) n (d + 1) (by omega) (by omega)
      -- Both go one level deeper, where the induction hypothesis is about what they contain.
      refine ⟨fun place => agrees_nested (by omega) fun S s h hdepth => ?_,
        agrees_nested (by omega) fun S s h hdepth => ?_⟩
      · have hprimary := agrees_primary (Parse.takes_expression levels) hexp hblock S s h hdepth
        refine hprimary.bind (fun _ _ => trivial) fun left S' s' _ h' hdepth' => ?_
        exact matches_operators place left (by omega)
          (fun l hl e he => (ih l (by omega) n e (by omega) he).1) h' hdepth'
      · have hnode := agrees_node (Parse.takes_expression levels .lowest)
          (Parse.takes_block levels) (hexp .lowest) hblock
        have hbraced := agrees_braced (fun _ _ _ => Fork.length_lt_of_node) hnode S s h hdepth
        exact hbraced.weaken fun _ _ => trivial

/-! ### Programs -/

theorem agrees_nextNode :
    Agrees readings 0 (nextNode (maxNesting + 1)) (Parse.nextNode maxNesting) := by
  intro S s h hd
  refine (agrees_skipSemicolons S s h hd).bind (fun _ => id) fun _ S₁ s₁ _ h₁ hd₁ => ?_
  rw [get_bind, Script.get_bind, h₁.current_eq]
  have hnode : Matches readings (· = 0)
      ((node (expression (maxNesting + 1) .lowest) (block (maxNesting + 1)) >>= fun x =>
        terminator x none >>= fun _ => pure (some x)) S₁)
      ((Parse.node (Parse.expression maxNesting .lowest) (Parse.block maxNesting) >>= fun x =>
        Parse.terminator x .eof >>= fun _ => pure (some x)) s₁) := by
    obtain ⟨hexp, hblock⟩ := agrees_expression_block readings maxNesting (maxNesting + 1) 0
      (Nat.lt_succ_self _) (Nat.zero_add _)
    exact (agrees_node (Parse.takes_expression maxNesting .lowest) (Parse.takes_block maxNesting)
      (hexp .lowest) hblock).bind (fun x => (agrees_terminator x none).bind fun _ => .pure _)
      S₁ s₁ h₁ hd₁
  cases hx : s₁.lookahead? with
  | none =>
    -- The stream has nothing in front only after a lexical error, which the puller has kept.
    obtain ⟨error, herror⟩ := h₁.exists_failure hx
    dsimp only
    rw [herror]
    exact matches_failAtEnd h₁ hd₁ (h₁.lexemes_eq_nil (by simp [hx]))
  | some x =>
    obtain ⟨token, span⟩ := x
    cases token with
    | eof => exact .ok none h₁ hd₁
    | _ => exact hnode

theorem matches_programWithin : ∀ (n : Nat) (S : Puller) (s : ParserState),
    s.lexemes.length < n → S.Shows readings s → S.depth = 0 →
    Matches readings (· = 0) (programWithin (maxNesting + 1) n S)
      (Parse.programNodes maxNesting s)
  | 0, _, _, hn, _, _ => by omega
  | n + 1, S, s, hn, h, hd => by
    rw [programWithin, Parse.programNodes_apply, Parse.programRound]
    refine (agrees_nextNode S s h hd).bind (fun _ => id) fun next S₁ s₁ hnext h₁ hd₁ => ?_
    cases next with
    | none => exact .ok [] h₁ hd₁
    | some x =>
      have hlt := Parse.length_lt_of_nextNode hnext
      exact (matches_programWithin n S₁ s₁ (by omega) h₁ hd₁).andThen fun _ => .pure _

/-- **A whole program** is read alike. -/
theorem agrees_program :
    Agrees readings 0 (program (maxNesting + 1)) (Parse.program maxNesting) := by
  intro S s h hd
  rw [program, Parse.program, get_bind, get_bind, Script.get_bind, h.current_eq]
  refine (matches_programWithin S.rounds S s h.length_lt_rounds h hd).bind (fun _ => id)
    fun nodes S₁ s₁ _ h₁ hd₁ => ?_
  rw [get_bind, Script.get_bind, h₁.lastStop_eq]
  exact .ok _ h₁ hd₁

end Script.Pull
