import Script.Proofs.Parser.Pulling.Parallel
import Script.Proofs.Parser.Pulling.Parsers

/-!
# No nesting is carried over

A parser that pulls counts how deep it is. The count goes up in two places, where an expression or
a block is begun and once for each operator, and it is set back in one, where an expression or a
block is left, by a result or by an error. So whatever is parsed, the count is afterwards what it
was: each parser goes along with itself, and with itself in another state that is alike.

A host may go on after an error. What it is given next then depends on what is in front of the
parser, and on nothing that the parsers of earlier nodes have left behind.

* `Pull.along_nested`, `Pull.parallel_operators`: where the count goes up, and back;
* `Pull.along_expression_block`, `Pull.along_nextNode`: expressions, blocks and nodes;
* `Puller.Reached`: the states that calls lead to, also after errors;
* `Puller.nesting_not_carried_over`: what a call leaves, and what it depends on.
-/

namespace Script

variable {samePlace inOrder : Prop}

namespace Pull

variable {α : Type} {d : Nat} {S R : Puller} {x : Lexeme}

/-! ### Pieces of expressions -/

section Pieces

variable {p q : Precedence → Pull Expr} {b b' : Pull Block}
  (hexp : ∀ place, Along samePlace inOrder d 1 (p place) (q place))
  (hblock : Along samePlace inOrder d 1 b b')

include hexp in
theorem along_pair :
    Along samePlace inOrder d 1 (pair (p .lowest)) (pair (q .lowest)) :=
  (hexp _).bind fun _ => (along_expect (by simp)).weaken.bind fun _ => (hexp _).bind fun _ =>
    along_pure _

include hblock in
theorem along_function : Along samePlace inOrder d 0 (function b) (function b') :=
  (along_expect (by simp)).bind fun _ => (along_expect (by simp)).weaken.bind fun _ =>
    (along_list along_expectName.weaken _).bind fun _ => hblock.bind fun _ => along_pure _

include hexp in
theorem along_array : Along samePlace inOrder d 0 (array p) (array q) :=
  (along_expect (by simp)).bind fun _ => (along_list (hexp _) _).bind fun _ => along_pure _

include hexp in
theorem along_map : Along samePlace inOrder d 0 (map p) (map q) :=
  (along_expect (by simp)).bind fun _ => (along_list (along_pair hexp) _).bind fun _ =>
    along_pure _

include hexp in
theorem parallel_unary (op : UnaryOp) (h : S.Alike samePlace inOrder R) (hd : S.depth = d)
    (hx : S.current? = some x) (htoken : x.token ≠ .eof) :
    Parallel samePlace inOrder (· = d) S.left (unary p op S) (unary q op R) :=
  parallel_nextToken_bind h hd hx htoken <| (hexp _).bind fun _ => along_pure _

include hexp in
theorem parallel_group (h : S.Alike samePlace inOrder R) (hd : S.depth = d)
    (hx : S.current? = some x) (htoken : x.token ≠ .eof) :
    Parallel samePlace inOrder (· = d) S.left (group p S) (group q R) :=
  (parallel_step h hd hx htoken).andThen fun _ => (hexp _).bind fun _ =>
    (along_expect (by simp)).weaken.bind fun _ => along_pure _

include hexp hblock in
/-- An expression begins with its lexeme, which is taken. -/
theorem along_primary : Along samePlace inOrder d 0 (primary p b) (primary q b') := by
  intro S R h hd
  rw [primary, primary, get_bind, get_bind, ← h.current_eq]
  cases hx : S.current? with
  | none => exact along_failAtEnd S R h hd
  | some x =>
    obtain ⟨token, span⟩ := x
    -- An atom takes one lexeme, and whatever follows it is the same on both sides.
    have hatom (e : Expr) (htoken : token ≠ .eof) :
        Parallel samePlace inOrder (· = d) S.left (atom e S) (atom e R) :=
      (parallel_step h hd hx htoken).andThen fun _ => along_pure e
    cases token with
    | name text => exact hatom _ (by simp)
    | integer value => exact hatom _ (by simp)
    | string value => exact hatom _ (by simp)
    | comment => exact along_throw _ S R h hd
    | eof => exact along_failAtEnd S R h hd
    | keyword word =>
      cases word with
      | trueWord => exact hatom _ (by simp)
      | falseWord => exact hatom _ (by simp)
      | functionWord => exact along_function hblock S R h hd
      | _ => exact along_throw _ S R h hd
    | symbol sign =>
      cases sign with
      | leftParen => exact parallel_group hexp h hd hx (by simp)
      | leftBracket => exact along_array hexp S R h hd
      | leftBrace => exact along_map hexp S R h hd
      | plus => exact parallel_unary hexp .plus h hd hx (by simp)
      | minus => exact parallel_unary hexp .minus h hd hx (by simp)
      | bang => exact parallel_unary hexp .not h hd hx (by simp)
      | _ => exact along_throw _ S R h hd

theorem exists_of_operator? {op : Operator} (hop : S.operator? = some op) :
    ∃ x, S.current? = some x ∧ x.token ≠ .eof := by
  obtain ⟨x, hx, htoken⟩ := Option.bind_eq_some_iff.1 hop
  refine ⟨x, hx, ?_⟩
  intro heof
  rw [heof] at htoken
  cases htoken

include hexp in
/-- An operator wraps what is in front of it, and is taken. -/
theorem parallel_wrap (left : Expr) (op : Operator) (h : S.Alike samePlace inOrder R)
    (hd : S.depth = d) (hop : S.operator? = some op) :
    Parallel samePlace inOrder (· = d) S.left (wrap p left op S) (wrap q left op R) := by
  obtain ⟨x, hx, htoken⟩ := exists_of_operator? hop
  cases op with
  | call =>
    have hcall : Along samePlace inOrder d 0 (wrap p left .call) (wrap q left .call) :=
      (along_expect (by simp)).bind fun _ => (along_list (hexp _) _).bind fun _ => along_pure _
    exact hcall S R h hd
  | index =>
    have hindex : Along samePlace inOrder d 0 (wrap p left .index) (wrap q left .index) :=
      (along_expect (by simp)).bind fun _ => (hexp _).bind fun _ =>
        (along_expect (by simp)).weaken.bind fun _ => along_pure _
    exact hindex S R h hd
  | assign => exact parallel_nextToken_bind h hd hx htoken <| (hexp _).bind fun _ => along_pure _
  | binary op => exact parallel_nextToken_bind h hd hx htoken <| (hexp _).bind fun _ => along_pure _

end Pieces

/-! ### Where the count goes up -/

/-- **One level deeper, and back**: whatever depth the parser inside has gone to. -/
theorem along_nested {p q : Pull α}
    (hinner : d < maxNesting → ∀ S R, S.Alike samePlace inOrder R → S.depth = d + 1 →
      Parallel samePlace inOrder (fun _ => True) S.left (p S) (q R)) :
    Along samePlace inOrder d 0 (nested p) (nested q) := by
  intro S R h hd
  have hd' : R.depth = d := h.depth_eq.symm.trans hd
  by_cases hlt : d < maxNesting
  · have hresult := hinner hlt _ _ (h.withDepth (congrArg (· + 1) h.depth_eq)) (congrArg (· + 1) hd)
    rw [nested, nested, bind_apply (enter_apply (hd ▸ hlt)), bind_apply (enter_apply (hd' ▸ hlt))]
    generalize p { S with depth := S.depth + 1 } = outcome at hresult ⊢
    generalize q { R with depth := R.depth + 1 } = outcome' at hresult ⊢
    cases hresult with
    | ok a h' _ hleft => exact .ok a (h'.withDepth h.depth_eq) hd hleft
    | error he h' _ => exact .error he (h'.withDepth h.depth_eq) hd
  · -- neither goes any deeper
    rw [nested, nested, bind_apply_error (enter_apply_tooDeep (by omega)),
      bind_apply_error (enter_apply_tooDeep (by omega))]
    exact .error h.depthError (h.withDepth h.depth_eq) hd

section Operators

variable {p q : Precedence → Pull Expr} (place : Precedence)
  (hexp : ∀ e, d ≤ e → e ≤ maxNesting → ∀ place, Along samePlace inOrder e 1 (p place) (q place))
include hexp

/-- The operators around an expression: each goes one level deeper than the one in front of it,
so they come out at any depth. -/
theorem parallel_operatorsWithin : ∀ (n : Nat) (left : Expr) {S R : Puller}, S.left < n →
    S.Alike samePlace inOrder R → d ≤ S.depth →
    Parallel samePlace inOrder (fun _ => True) (S.left + 1) (operatorsWithin p place n left S)
      (operatorsWithin q place n left R)
  | 0, _, _, _, hn, _, _ => by omega
  | n + 1, left, S, R, hn, h, hd => by
    have hdone : Parallel samePlace inOrder (fun _ => True) (S.left + 1)
        ((pure left : Pull Expr) S) ((pure left : Pull Expr) R) :=
      .ok left h trivial (Nat.lt_succ_self _)
    rw [operatorsWithin, operatorsWithin, get_bind, get_bind, ← h.operator?_eq]
    cases hop : S.operator? with
    | none => exact hdone
    | some op =>
      dsimp only
      by_cases htight : place.rank < op.precedence.rank
      · rw [if_pos htight, if_pos htight]
        by_cases hlt : S.depth < maxNesting
        · rw [bind_apply (enter_apply hlt), bind_apply (enter_apply (h.depth_eq ▸ hlt))]
          have hinner := hexp (S.depth + 1) (by omega) hlt
          refine (parallel_wrap hinner left op (h.withDepth (congrArg (· + 1) h.depth_eq)) rfl
            hop).bind (fun _ _ => trivial) fun wrapped S' R' h' hd' hleft => ?_
          -- The operator is taken, so less is left for the next round.
          have hless : S'.left < S.left := hleft
          exact (parallel_operatorsWithin n wrapped (by omega) h' (by omega)).weaken (fun _ => id)
            (by omega)
        · -- The two errors may differ in their place, for it is where the last lexeme ended.
          rw [bind_apply_error (enter_apply_tooDeep (by omega)),
            bind_apply_error (enter_apply_tooDeep (h.depth_eq ▸ Nat.le_of_not_lt hlt))]
          exact .error h.depthError (h.withDepth (congrArg (· + 1) h.depth_eq)) trivial
      · rw [if_neg htight, if_neg htight]
        exact hdone

theorem parallel_operators (left : Expr) (h : S.Alike samePlace inOrder R) (hd : d ≤ S.depth) :
    Parallel samePlace inOrder (fun _ => True) (S.left + 1) (operators p place left S)
      (operators q place left R) := by
  rw [operators, operators, get_bind, get_bind, ← h.rounds_eq]
  exact parallel_operatorsWithin place hexp S.rounds left S.left_lt_rounds h hd

end Operators

/-! ### Pieces of nodes -/

section Nodes

variable {p q : Pull Expr} {b b' : Pull Block} (hexp : Along samePlace inOrder d 0 p q)
  (hblock : Along samePlace inOrder d 1 b b')

include hexp in
theorem along_binding : Along samePlace inOrder d 0 (binding p) (binding q) :=
  (along_expect (by simp)).bind fun _ => along_expectName.weaken.bind fun _ =>
    (along_expect (by simp)).weaken.bind fun _ => hexp.weaken.bind fun _ => along_pure _

include hexp in
theorem along_returning : Along samePlace inOrder d 0 (returning p) (returning q) := by
  refine (along_expect (by simp)).bind fun opening S R h hd => ?_
  rw [get_bind, get_bind, h.current_eq]
  split
  · exact along_pure _ S R h hd
  · exact hexp.weaken.bind (fun _ => along_pure _) S R h hd

include hexp hblock in
/-- An `if`: those that follow it after `else` have less before them. -/
theorem parallel_conditionalWithin : ∀ (n : Nat) {S R : Puller}, S.left < n →
    S.Alike samePlace inOrder R → S.depth = d →
    Parallel samePlace inOrder (· = d) S.left (conditionalWithin p b n S)
      (conditionalWithin q b' n R)
  | 0, _, _, hn, _, _ => by omega
  | n + 1, S, R, hn, h, hd => by
    rw [conditionalWithin, conditionalWithin]
    refine (along_expect (by simp) S R h hd).bind (fun _ => id) fun opening S₁ R₁ h₁ hd₁ hl₁ => ?_
    refine (hexp S₁ R₁ h₁ hd₁).bind (fun _ => id) fun condition S₂ R₂ h₂ hd₂ hl₂ => ?_
    refine (hblock S₂ R₂ h₂ hd₂).bind (fun _ => id) fun consequence S₃ R₃ h₃ hd₃ hl₃ => ?_
    refine parallel_comes_bind (by simp) h₃ hd₃ rfl (fun S₄ R₄ h₄ hd₄ hl₄ => ?_)
      (.ok _ h₃ hd₃ (by omega))
    refine (along_comes _ S₄ R₄ h₄ hd₄).bind (fun _ => id) fun comesIf S₅ R₅ h₅ hd₅ hl₅ => ?_
    cases comesIf with
    | true =>
      rw [if_pos rfl, if_pos rfl]
      have hinner := parallel_conditionalWithin n (S := S₅) (by omega) h₅ hd₅
      exact (hinner.andThen fun _ => along_pure _).weaken (fun _ => id) (by omega)
    | false =>
      exact ((hblock S₅ R₅ h₅ hd₅).andThen fun _ => along_pure _).weaken (fun _ => id) (by omega)

include hexp hblock in
theorem along_conditional :
    Along samePlace inOrder d 0 (conditional p b) (conditional q b') := by
  intro S R h hd
  rw [conditional, conditional, get_bind, get_bind, ← h.rounds_eq]
  exact parallel_conditionalWithin hexp hblock S.rounds S.left_lt_rounds h hd

include hexp hblock in
theorem along_node : Along samePlace inOrder d 0 (node p b) (node q b') := by
  intro S R h hd
  have hother := hexp.map Node.expression S R h hd
  rw [node, node, get_bind, get_bind, ← h.current_eq]
  cases S.current? with
  | none => exact along_failAtEnd S R h hd
  | some x =>
    obtain ⟨token, span⟩ := x
    cases token with
    | keyword word =>
      cases word with
      | letWord => exact along_binding hexp S R h hd
      | returnWord => exact along_returning hexp S R h hd
      | ifWord => exact along_conditional hexp hblock S R h hd
      | _ => exact hother
    | _ => exact hother

end Nodes

/-- What has to follow a node: only a semicolon is taken. -/
theorem along_terminator (x : Node) (closing? : Option Token) :
    Along samePlace inOrder d 1 (terminator x closing?) (terminator x closing?) := by
  intro S R h hd
  have hcurrent := h.current_eq
  cases hx : S.current? with
  | none =>
    rw [terminator, get_bind, get_bind, ← hcurrent, hx]
    dsimp only
    split
    · exact along_pure () S R h hd
    · exact along_failAtEnd S R h hd
  | some lexeme =>
    obtain ⟨token, span⟩ := lexeme
    have hx' : R.current? = some ⟨token, span⟩ := hcurrent.symm.trans hx
    by_cases hsemicolon : token = .symbol .semicolon
    · subst hsemicolon
      rw [terminator, get_bind, get_bind, hx, hx']
      exact (parallel_step h hd hx (by simp)).weaken (fun _ => id) (Nat.le_succ _)
    rw [terminator_apply x closing? hx hsemicolon, terminator_apply x closing? hx' hsemicolon]
    split
    · exact along_pure () S R h hd
    · split
      · exact along_failAtEnd S R h hd
      · -- A missing semicolon is reported where the last lexeme ended, which is the only part of
        -- the state that may differ.
        have he : ParseError.Alike samePlace ⟨.missingSemicolon, .point S.lastStop⟩
            ⟨.missingSemicolon, .point R.lastStop⟩ :=
          ⟨rfl, fun hsame => by rw [h.lastStop_eq hsame]⟩
        exact .error he h hd

/-! ### Blocks -/

section Blocks

variable {p q : Pull Node} (hnode : Along samePlace inOrder d 0 p q)
include hnode

theorem parallel_nodesWithin : ∀ (n : Nat) {S R : Puller}, S.left < n →
    S.Alike samePlace inOrder R → S.depth = d →
    Parallel samePlace inOrder (· = d) (S.left + 1) (nodesWithin p n S) (nodesWithin q n R)
  | 0, _, _, hn, _, _ => by omega
  | n + 1, S, R, hn, h, hd => by
    rw [nodesWithin, nodesWithin]
    refine (along_skipSemicolons S R h hd).bind (fun _ => id) fun _ S₁ R₁ h₁ hd₁ hl₁ => ?_
    refine (along_comes _ S₁ R₁ h₁ hd₁).bind (fun _ => id) fun closes S₂ R₂ h₂ hd₂ hl₂ => ?_
    cases closes with
    | true =>
      have hclose : Along samePlace inOrder d 0 (expect (.symbol .rightBrace))
          (expect (.symbol .rightBrace)) := along_expect (by simp)
      have hbrace := hclose S₂ R₂ h₂ hd₂
      exact (hbrace.andThen fun close => along_pure _).weaken (fun _ => id) (by omega)
    | false =>
      refine (hnode S₂ R₂ h₂ hd₂).bind (fun _ => id) fun x S₃ R₃ h₃ hd₃ hl₃ => ?_
      refine (along_terminator x _ S₃ R₃ h₃ hd₃).bind (fun _ => id) fun _ S₄ R₄ h₄ hd₄ hl₄ => ?_
      have hrest := parallel_nodesWithin n (S := S₄) (by omega) h₄ hd₄
      exact (hrest.andThen fun _ => along_pure _).weaken (fun _ => id) (by omega)

theorem along_braced : Along samePlace inOrder d 0 (braced p) (braced q) := by
  refine (along_expect (by simp)).bind fun opening S R h hd => ?_
  rw [get_bind, get_bind, ← h.rounds_eq]
  exact (parallel_nodesWithin hnode S.rounds S.left_lt_rounds h hd).andThen fun _ => along_pure _

end Blocks

/-! ### Expressions, blocks and nodes -/

/-- **Expressions and blocks leave the depth as it was**, if as many of them may be open as are
needed to get too deep. More make no difference. -/
theorem along_expression_block (n : Nat) : ∀ m d, 0 < n → 0 < m → maxNesting < n + d →
    maxNesting < m + d →
    (∀ place, Along samePlace inOrder d 0 (expression n place) (expression m place)) ∧
      Along samePlace inOrder d 0 (block n) (block m) := by
  induction n with
  | zero => omega
  | succ n ih =>
    intro m d _ hm hnd hmd
    obtain ⟨m, rfl⟩ : ∃ l, m = l + 1 := ⟨m - 1, by omega⟩
    -- inside there is at least one level left, or the parser is too deep already
    have hinner (e : Nat) (hde : d + 1 ≤ e) (he : e ≤ maxNesting) :
        (∀ place, Along samePlace inOrder e 0 (expression n place) (expression m place)) ∧
          Along samePlace inOrder e 0 (block n) (block m) :=
      ih m e (by omega) (by omega) (by omega) (by omega)
    refine ⟨fun place => along_nested fun hlt S R h hd => ?_, along_nested fun hlt S R h hd => ?_⟩
    · obtain ⟨hexp, hblock⟩ := hinner (d + 1) (Nat.le_refl _) hlt
      refine (along_primary (fun place => (hexp place).weaken) hblock.weaken S R h hd).bind
        (fun _ _ => trivial) fun left S' R' h' hd' hl' => ?_
      exact (parallel_operators place (fun e hde he place => ((hinner e hde he).1 place).weaken)
        left h' (Nat.le_of_eq hd'.symm)).weaken (fun _ => id) hl'
    · obtain ⟨hexp, hblock⟩ := hinner (d + 1) (Nat.le_refl _) hlt
      exact (along_braced (along_node (hexp .lowest) hblock.weaken) S R h hd).weaken
        (fun _ _ => trivial) (Nat.le_refl _)

theorem along_nextNode {n m : Nat} (hn : 0 < n) (hm : 0 < m) (hnd : maxNesting < n + d)
    (hmd : maxNesting < m + d) : Along samePlace inOrder d 1 (nextNode n) (nextNode m) := by
  refine along_skipSemicolons.bind fun _ S R h hd => ?_
  obtain ⟨hexp, hblock⟩ := along_expression_block n m d hn hm hnd hmd
  have hnode : Along samePlace inOrder d 1
      (node (expression n .lowest) (block n) >>= fun x => terminator x none >>= fun _ =>
        pure (some x))
      (node (expression m .lowest) (block m) >>= fun x => terminator x none >>= fun _ =>
        pure (some x)) :=
    (along_node (hexp .lowest) hblock.weaken).weaken.bind fun x => (along_terminator x none).bind
      fun _ => along_pure _
  rw [get_bind, get_bind, ← h.current_eq]
  -- Without a lexeme in front it is the failure, kept or absent on both sides, that decides.
  cases S.current? with
  | none =>
    dsimp only
    rw [← h.failure_eq]
    cases S.failure? with
    | none => exact along_pure none S R h hd
    | some error => exact along_failAtEnd S R h hd
  | some x =>
    obtain ⟨token, span⟩ := x
    cases token with
    | eof => exact along_pure none S R h hd
    | _ => exact hnode S R h hd

end Pull

/-! ### One call after another -/

namespace Pull

variable {α : Type}

/-- A parser leaves the depth as it was, in every state and whether it gives a result or an
error; and one of the two it gives. -/
def LeavesDepth (p : Pull α) : Prop :=
  ∀ S, ∃ outcome S', p S = some (outcome, S') ∧ S'.depth = S.depth

theorem Parallel.exists_outcomes {P : Nat → Prop} {bound : Nat}
    {r r' : Option (Except ParseError α × Puller)} (h : Parallel samePlace inOrder P bound r r') :
    ∃ outcome S outcome' R, r = some (outcome, S) ∧ r' = some (outcome', R) ∧
      S.Alike samePlace inOrder R ∧ P S.depth ∧
      outcome.mapError ParseError.cause = outcome'.mapError ParseError.cause ∧
      (samePlace → outcome = outcome') := by
  cases h with
  | ok a h hdepth _ => exact ⟨_, _, _, _, rfl, rfl, h, hdepth, rfl, fun _ => rfl⟩
  | error he h hdepth =>
    exact ⟨_, _, _, _, rfl, rfl, h, hdepth, congrArg Except.error he.cause_eq,
      fun hsame => congrArg Except.error (he.eq hsame)⟩

/-- A parser that goes along with itself leaves the depth as it was. -/
theorem leavesDepth_of_along {slack : Nat} {p : Pull α} (h : ∀ d, Along False False d slack p p) :
    LeavesDepth p := by
  intro S
  have halike : S.Alike False False S := ⟨⟨rfl, rfl, rfl⟩, rfl, False.elim, False.elim⟩
  obtain ⟨outcome, S', -, -, hS, -, -, hdepth, -⟩ := (h S.depth S S halike rfl).exists_outcomes
  exact ⟨outcome, S', hS, hdepth⟩

/-- At most as many expressions and blocks are open as may nest, and one that is too deep. -/
theorem along_calls (samePlace inOrder : Prop) (d : Nat) :
    (∀ place, Along samePlace inOrder d 0 (expression (maxNesting + 1) place)
      (expression (maxNesting + 1) place)) ∧
    Along samePlace inOrder d 0 (block (maxNesting + 1)) (block (maxNesting + 1)) ∧
    Along samePlace inOrder d 1 (nextNode (maxNesting + 1)) (nextNode (maxNesting + 1)) := by
  have hpos : 0 < maxNesting + 1 := Nat.succ_pos _
  have hdeep : maxNesting < maxNesting + 1 + d := by omega
  obtain ⟨hexp, hblock⟩ := along_expression_block _ _ d hpos hpos hdeep hdeep
  exact ⟨hexp, hblock, along_nextNode hpos hpos hdeep hdeep⟩

/-- The outcomes of calls for the next node, one after another. An error does not end them. -/
def outcomes : Nat → Puller → Option (List (Except ParseError (Option Node)))
  | 0, _ => some []
  | k + 1, S => do
    let (outcome, S') ← nextNode (maxNesting + 1) S
    let rest ← outcomes k S'
    return outcome :: rest

end Pull

/-- The outcomes of calls for the next node of a stream, one after another. -/
def Parse.outcomes : Nat → ParserState → List (Except ParseError (Option Node))
  | 0, _ => []
  | k + 1, s =>
    let result := Parse.nextNode maxNesting s
    withoutState result :: outcomes k (endState result)

/-- Calls give the same by pulling and from a stream, however many of them fail. -/
theorem Pull.outcomes_eq {readings : List Reading} : ∀ (k : Nat) {S : Puller} {s : ParserState},
    S.Shows readings s → S.depth = 0 → Pull.outcomes k S = some (Parse.outcomes k s)
  | 0, _, _, _, _ => rfl
  | k + 1, S, s, h, hd => by
    obtain ⟨S', hcall, h'⟩ := (agrees_nextNode S s h hd).exists_puller
    obtain ⟨_, S₁, hcall₁, hdepth⟩ := leavesDepth_of_along (fun d => (along_calls _ _ d).2.2) S
    obtain ⟨-, rfl⟩ := Prod.mk.inj (Option.some.inj (hcall₁.symm.trans hcall))
    rw [outcomes, Parse.outcomes, hcall]
    show (outcomes k S₁).bind _ = _
    rw [outcomes_eq k h' (hdepth.trans hd)]
    rfl

namespace Puller

/-- The state before anything is pulled out of what is left of a text. -/
def ofCursor (c : Cursor) : Puller :=
  ⟨c, [], none, [], none, 0, 0⟩

/-- A new parser has pulled the first lexeme, or lexical error, of what is left of a text. -/
def IsNew (S : Puller) : Prop :=
  ∃ c, (ofCursor c).step = some S

/-- **The states that calls lead to** from a new parser, one after another. A call may have given a
result or an error. -/
inductive Reached : Puller → Prop
  | new {S} (h : S.IsNew) : Reached S
  | expression {S S' place outcome} (h : Reached S)
      (hcall : Pull.expression (maxNesting + 1) place S = some (outcome, S')) : Reached S'
  | block {S S' outcome} (h : Reached S)
      (hcall : Pull.block (maxNesting + 1) S = some (outcome, S')) : Reached S'
  | nextNode {S S' outcome} (h : Reached S)
      (hcall : Pull.nextNode (maxNesting + 1) S = some (outcome, S')) : Reached S'

/-- A call for the next node fails for a cause. -/
def Reports (S : Puller) (cause : ParseCause) : Prop :=
  ∃ span S', Pull.nextNode (maxNesting + 1) S = some (.error ⟨cause, span⟩, S')

variable {S S' R : Puller}

theorem IsNew.drawn (h : S.IsNew) : S.depth = 0 ∧ S.Drawn := by
  obtain ⟨c, hstep⟩ := h
  obtain ⟨S', -, hS, -, -, hdrawn, -, ⟨hdepth, -⟩, -⟩ :=
    exists_pullWithin_sameFront (ofCursor c).rounds (S := ofCursor c) (R := ofCursor c)
      (Nat.lt_add_of_pos_right Nat.two_pos) ⟨rfl, rfl, rfl⟩ rfl rfl
  obtain rfl := Option.some.inj (hS.symm.trans hstep)
  exact ⟨hdepth, hdrawn⟩

/-- What was drawn last is what a new parser draws first from the same place. -/
theorem Drawn.exists_isNew (h : S.Drawn) : ∃ R, R.IsNew ∧ S.SameFront R := by
  obtain ⟨c, ⟨⟨token, span⟩, hnext, hcomment, hcurrent, hfailure⟩ |
    ⟨error, hnext, hcurrent, hfailure⟩⟩ := h
  · refine ⟨⟨S.lexer, [.ok ⟨token, span⟩], some ⟨token, span⟩, [], none, 0, 0⟩, ⟨c, ?_⟩,
      ⟨hcurrent, rfl, hfailure⟩⟩
    exact pullWithin_of_token (c.rest.length + 1) hnext hcomment
  · refine ⟨⟨S.lexer, [.error error], none, [], some error, 0, 0⟩, ⟨c, ?_⟩,
      ⟨hcurrent, rfl, hfailure⟩⟩
    exact pullWithin_of_error (c.rest.length + 1) hnext

/-- A call leaves the depth as it was, and in front what the lexer has handed out last. -/
theorem drawn_of_call {α : Type} {p : Pull α} {slack : Nat} {outcome : Except ParseError α}
    (h : S.depth = 0 ∧ S.Drawn) (hp : Pull.Along False True 0 slack p p)
    (hcall : p S = some (outcome, S')) : S'.depth = 0 ∧ S'.Drawn := by
  have halike : S.Alike False True S := ⟨⟨rfl, rfl, rfl⟩, rfl, False.elim, fun _ => h.2⟩
  obtain ⟨_, _, _, _, hS, -, halike', hdepth, -⟩ := (hp S S halike h.1).exists_outcomes
  obtain ⟨-, rfl⟩ := Prod.mk.inj (Option.some.inj (hS.symm.trans hcall))
  exact ⟨hdepth, halike'.drawn trivial⟩

/-- No call leaves any nesting behind, by induction on the calls. -/
theorem Reached.drawn (h : S.Reached) : S.depth = 0 ∧ S.Drawn := by
  obtain ⟨hexpression, hblock, hnext⟩ := Pull.along_calls False True 0
  induction h with
  | new h => exact h.drawn
  | expression _ hcall ih => exact drawn_of_call ih (hexpression _) hcall
  | block _ hcall ih => exact drawn_of_call ih hblock hcall
  | nextNode _ hcall ih => exact drawn_of_call ih hnext hcall

/-- The next node depends on what is in front alone, up to the places of errors, which depend on
where the last lexeme ended besides. -/
theorem Reached.exists_nextNode (hS : S.Reached) (hR : R.Reached) (h : S.SameFront R) :
    ∃ outcome S' outcome' R', Pull.nextNode (maxNesting + 1) S = some (outcome, S') ∧
      Pull.nextNode (maxNesting + 1) R = some (outcome', R') ∧ S'.SameFront R' ∧
      outcome.mapError ParseError.cause = outcome'.mapError ParseError.cause ∧
      (S.lastStop = R.lastStop → outcome = outcome' ∧ S'.lastStop = R'.lastStop) := by
  have halike : S.Alike (S.lastStop = R.lastStop) False R :=
    ⟨h, hS.drawn.1.trans hR.drawn.1.symm, id, False.elim⟩
  obtain ⟨outcome, S', outcome', R', hcall, hcall', h', -, hcause, hsame⟩ :=
    ((Pull.along_calls _ _ 0).2.2 S R halike hS.drawn.1).exists_outcomes
  exact ⟨outcome, S', outcome', R', hcall, hcall', h'.toSameFront, hcause, fun hstop =>
    ⟨hsame hstop, h'.lastStop_eq hstop⟩⟩

theorem Reached.reports_of_reports (hS : S.Reached) (hR : R.Reached) (h : S.SameFront R)
    {cause : ParseCause} (hreports : S.Reports cause) : R.Reports cause := by
  obtain ⟨span, after, hcall⟩ := hreports
  obtain ⟨outcome, S', outcome', R', hS', hR', -, hcause, -⟩ := hS.exists_nextNode hR h
  obtain ⟨rfl, -⟩ := Prod.mk.inj (Option.some.inj (hS'.symm.trans hcall))
  cases outcome' with
  | ok x => cases hcause
  | error error =>
    obtain rfl : cause = error.cause := Except.error.inj hcause
    exact ⟨error.span, R', hR'⟩

/-- **No nesting is carried over** from one node to the next. An expression, a block and the next
node leave the depth as it was, in whatever state the parser is and whether they are parsed or give
an error. So after any calls, failed ones among them, what comes next depends on what is in front of
the parser and on where the last lexeme ended, and on the latter only in the places of errors. In
particular the nesting is too deep exactly if it is for a new parser with the same in front, which
there is. All such calls give what the parser of a stream gives. -/
theorem nesting_not_carried_over :
    ((∀ place, Pull.LeavesDepth (Pull.expression (maxNesting + 1) place)) ∧
      Pull.LeavesDepth (Pull.block (maxNesting + 1)) ∧
      Pull.LeavesDepth (Pull.nextNode (maxNesting + 1))) ∧
    (∀ S R : Puller, S.Reached → R.Reached → S.SameFront R →
      ∃ outcome S' outcome' R', Pull.nextNode (maxNesting + 1) S = some (outcome, S') ∧
        Pull.nextNode (maxNesting + 1) R = some (outcome', R') ∧ S'.SameFront R' ∧
        outcome.mapError ParseError.cause = outcome'.mapError ParseError.cause ∧
        (S.lastStop = R.lastStop → outcome = outcome' ∧ S'.lastStop = R'.lastStop)) ∧
    (∀ S : Puller, S.Reached → (∃ R, R.IsNew ∧ S.SameFront R) ∧
      ∀ R, R.IsNew → S.SameFront R → (S.Reports .nestingTooDeep ↔ R.Reports .nestingTooDeep)) ∧
    ∀ text k, ∃ S, (ofText text).step = some S ∧ S.IsNew ∧
      Pull.outcomes k S = some (Parse.outcomes k (.ofStream (.ofText text))) := by
  refine ⟨⟨fun place => ?_, ?_, ?_⟩, fun S R hS hR h => hS.exists_nextNode hR h,
    fun S hS => ⟨hS.drawn.2.exists_isNew, fun R hR h => ⟨?_, ?_⟩⟩, fun text k => ?_⟩
  · exact Pull.leavesDepth_of_along fun d => (Pull.along_calls _ _ d).1 place
  · exact Pull.leavesDepth_of_along fun d => (Pull.along_calls _ _ d).2.1
  · exact Pull.leavesDepth_of_along fun d => (Pull.along_calls _ _ d).2.2
  · exact hS.reports_of_reports (.new hR) h
  · -- the same from the other side
    have h' : R.SameFront S := ⟨h.current_eq.symm, h.lexer_eq.symm, h.failure_eq.symm⟩
    exact Reached.reports_of_reports (.new hR) hS h'
  · obtain ⟨S, hstep, hshows, hdepth⟩ := exists_step_ofText text
    exact ⟨S, hstep, ⟨.ofChars text.toList, hstep⟩, Pull.outcomes_eq k hshows hdepth⟩

/-- One parenthesis more is opened than expressions may nest, so the first node is given up in front
of it. The next call begins there and gives a node, `(1)`, as a new parser would. -/
theorem nesting_not_carried_over_afterTooDeep :
    let c : Cursor := ⟨0, List.replicate 1001 '(' ++ ['1', ')']⟩
    ∃ S S' R : Puller, (ofCursor c).step = some S ∧ S.Reports .nestingTooDeep ∧ S'.Reached ∧
      R.IsNew ∧ S'.SameFront R ∧ ¬ S'.Reports .nestingTooDeep ∧ ¬ R.Reports .nestingTooDeep := by
  intro c
  have hcauses : (((ofCursor c).step.bind (Pull.outcomes 2)).map fun outcomes =>
      outcomes.map fun outcome => match outcome with
        | .error error => some error.cause
        | .ok _ => none) = some [some .nestingTooDeep, none] := by
    decide +kernel
  obtain ⟨⟨-, -, hleaves⟩, -, hnew, -⟩ := nesting_not_carried_over
  cases hstep : (ofCursor c).step with
  | none =>
    rw [hstep] at hcauses
    cases hcauses
  | some S =>
    obtain ⟨outcome, S', hcall, -⟩ := hleaves S
    obtain ⟨outcome', S'', hcall', -⟩ := hleaves S'
    have houtcomes : Pull.outcomes 2 S = some [outcome, outcome'] := by
      rw [Pull.outcomes, hcall]
      -- one call, then one more
      show (Pull.outcomes 1 S').bind _ = _
      rw [Pull.outcomes, hcall']
      rfl
    rw [hstep, Option.bind_some, houtcomes] at hcauses
    obtain ⟨hcause, hcauses'⟩ := List.cons.inj (Option.some.inj hcauses)
    have hreached : S'.Reached := .nextNode (.new ⟨c, hstep⟩) hcall
    obtain ⟨⟨R, hR, hfront⟩, hiff⟩ := hnew S' hreached
    -- The second call gives a node, so it does not report.
    have hgoesOn : ¬ S'.Reports .nestingTooDeep := by
      rintro ⟨span, after, hfails⟩
      obtain ⟨rfl, -⟩ := Prod.mk.inj (Option.some.inj (hcall'.symm.trans hfails))
      cases hcauses'
    refine ⟨S, S', R, rfl, ?_, hreached, hR, hfront, hgoesOn, ?_⟩
    · cases outcome with
      | ok x => cases hcause
      | error error =>
        obtain ⟨cause, span⟩ := error
        obtain rfl : cause = .nestingTooDeep := Option.some.inj hcause
        exact ⟨span, S', hcall⟩
    · exact fun hreports => hgoesOn ((hiff R hR hfront).2 hreports)

end Puller

end Script
