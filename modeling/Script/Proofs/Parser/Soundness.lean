import Script.Proofs.Parser.Tier

/-!
# What is read is in the language

Whatever a parser gives, the lexemes that it has taken are a phrase of the grammar, and the result
is the tree of that phrase. For expressions the proof follows the loop over operators. What has been
read so far is a phrase of some tier, and the operator that comes next is not too strong for it
(`Tier.follow`): a stronger one would have gone to the last operand.

* `reads_wrap`: an operator around what has been read so far;
* `reads_expression`, `reads_block`: expressions and blocks, within any number of levels;
* `isProgram_of_program`: whole programs.
-/

namespace Script

open Grammar

namespace Parse

variable {α : Type}

/-! ### Lists -/

/-- A parser reads phrases of a kind: whatever it gives, it has taken the lexemes of a phrase
that stands for that. -/
def Reads (D : List Lexeme → α → Prop) (p : Parse α) : Prop :=
  ∀ s a s', p s = .ok a s' → ∃ l, Consumes s l s' ∧ D l a

section Lists

variable {kind : Item} {item : Parse kind.Tree} (hitem : Reads (Derives (.item kind)) item)
include hitem

theorem reads_afterCommasWithin : ∀ n,
    Reads (Derives (.furtherItems kind)) (afterCommasWithin item n)
  | 0, s, xs, s', h => by
    cases h
    exact ⟨[], .refl s, .noFurtherItems⟩
  | n + 1, s, xs, s', h => by
    rw [afterCommasWithin, comes_bind] at h
    split at h
    · next hcomes =>
      obtain ⟨span, rest, hs⟩ := exists_cons_of_lookahead (by simp) hcomes
      obtain ⟨_, s₁, hadvance, h⟩ := bind_eq_ok_iff.1 h
      cases hadvance
      obtain ⟨x, s₂, hx, h⟩ := bind_eq_ok_iff.1 h
      obtain ⟨ys, s₃, hys, h⟩ := bind_eq_ok_iff.1 h
      cases h
      obtain ⟨l, hl, hD⟩ := hitem _ _ _ hx
      obtain ⟨l', hl', hD'⟩ := reads_afterCommasWithin n _ _ _ hys
      exact ⟨_, (Consumes.advance hs).cons (hl.trans hl'), .furtherItems hD hD'⟩
    · cases h
      exact ⟨[], .refl s, .noFurtherItems⟩

/-- A list between brackets is read with its closing bracket. -/
theorem reads_list (closing : Symbol) {s s' : ParserState} {xs : List kind.Tree} {stop : UInt32}
    (h : list item closing s = .ok (xs, stop) s') :
    ∃ l span, Consumes s (l ++ [⟨.symbol closing, span⟩]) s' ∧ span.stop = stop ∧
      Derives (.items kind) l xs := by
  rw [list, comes_bind] at h
  split at h
  · obtain ⟨close, s₁, hclose, h⟩ := bind_eq_ok_iff.1 h
    cases h
    exact ⟨[], close, consumes_of_expect hclose, rfl, .noItems⟩
  · obtain ⟨x, s₁, hx, h⟩ := bind_eq_ok_iff.1 h
    obtain ⟨ys, s₂, hys, h⟩ := bind_eq_ok_iff.1 h
    obtain ⟨close, s₃, hclose, h⟩ := bind_eq_ok_iff.1 h
    cases h
    obtain ⟨l, hl, hD⟩ := hitem _ _ _ hx
    obtain ⟨l', hl', hD'⟩ := reads_afterCommasWithin hitem _ _ _ _ hys
    exact ⟨l ++ l', close, (hl.trans hl').trans (consumes_of_expect hclose), rfl,
      .items hD hD'⟩

end Lists

theorem reads_expectName : Reads (Derives (.item .parameter)) expectName := by
  intro s ident s' h
  exact ⟨_, consumes_of_expectName h, .parameterItem⟩

/-! ### Pieces of expressions -/

/-- Expressions are read up to the first operator that binds no tighter than the place. -/
def ReadsExpressions (p : Precedence → Parse Expr) : Prop :=
  ∀ place s e s', place ≠ .call → p place s = .ok e s' →
    ∃ l, Consumes s l s' ∧ Derives (.expression place.tier) l e ∧
      s'.precedence.rank ≤ place.rank

section Pieces

variable {expression : Precedence → Parse Expr} {block : Parse Block}
  (hexp : ReadsExpressions expression) (hblock : Reads (Derives .block) block)

include hexp in
theorem reads_lowest : Reads (Derives (.expression .assignment)) (expression .lowest) := by
  intro s e s' h
  obtain ⟨l, hl, hD, -⟩ := hexp .lowest s e s' (by simp) h
  exact ⟨l, hl, hD⟩

include hexp in
theorem reads_expressionItem : Reads (Derives (.item .expression)) (expression .lowest) := by
  intro s e s' h
  obtain ⟨l, hl, hD⟩ := reads_lowest hexp s e s' h
  exact ⟨l, hl, .expressionItem hD⟩

include hexp in
theorem reads_pair : Reads (Derives (.item .pair)) (pair (expression .lowest)) := by
  intro s kv s' h
  obtain ⟨k, s₁, hk, h⟩ := bind_eq_ok_iff.1 h
  obtain ⟨colon, s₂, hcolon, h⟩ := bind_eq_ok_iff.1 h
  obtain ⟨v, s₃, hv, h⟩ := bind_eq_ok_iff.1 h
  cases h
  obtain ⟨l, hl, hD⟩ := reads_lowest hexp s k s₁ hk
  obtain ⟨l', hl', hD'⟩ := reads_lowest hexp _ v _ hv
  exact ⟨_, hl.trans ((consumes_of_expect hcolon).cons hl'), .pairItem hD hD'⟩

theorem precedence_rank_le (s : ParserState) : s.precedence.rank ≤ 6 := by
  cases s.precedence <;> simp [Precedence.rank]

/-- What is read before any operator: a phrase of a tier that no operator between operands
makes, and what comes next does not bind tighter. -/
def ReadsPrimary (s : ParserState) (e : Expr) (s' : ParserState) : Prop :=
  ∃ l tier, Consumes s l s' ∧ Derives (.expression tier) l e ∧
    Tier.signed.rank ≤ tier.rank ∧ s'.precedence.rank ≤ tier.follow

omit expression block in
theorem ReadsPrimary.of_primary {s s' : ParserState} {e : Expr} {l : List Lexeme}
    (hl : Consumes s l s') (hD : Derives (.expression .primary) l e) : ReadsPrimary s e s' :=
  ⟨l, .primary, hl, hD, by simp [Tier.rank], by
    have hle := precedence_rank_le s'
    simp only [Tier.follow, Tier.rank]
    omega⟩

include hexp in
theorem reads_unary (op : UnaryOp) {s s' : ParserState} {e : Expr} {x : Lexeme}
    {rest : List Lexeme} (hs : s.lexemes = x :: rest) (hx : x.token = .symbol op.symbol)
    (h : unary expression op x.span.start s.advance = .ok e s') : ReadsPrimary s e s' := by
  obtain ⟨operand, s₁, hoperand, h⟩ := bind_eq_ok_iff.1 h
  cases h
  obtain ⟨l, hl, hD, hnext⟩ := hexp .unary _ operand s' (by simp) hoperand
  obtain ⟨token, span⟩ := x
  obtain rfl : token = .symbol op.symbol := hx
  exact ⟨_, .signed, (Consumes.advance hs).cons hl, .unary hD, Nat.le_refl _, hnext⟩

include hblock in
theorem reads_function {s s' : ParserState} {e : Expr} {f : Span}
    {rest : List Lexeme} (hs : s.lexemes = ⟨.keyword .functionWord, f⟩ :: rest)
    (h : function block f.start s.advance = .ok e s') : ReadsPrimary s e s' := by
  obtain ⟨opening, s₁, hopening, h⟩ := bind_eq_ok_iff.1 h
  obtain ⟨⟨ps, stop⟩, s₂, hps, h⟩ := bind_eq_ok_iff.1 h
  obtain ⟨body, s₃, hbody, h⟩ := bind_eq_ok_iff.1 h
  cases h
  obtain ⟨l, close, hl, -, hD⟩ := reads_list reads_expectName .rightParen hps
  obtain ⟨l', hl', hD'⟩ := hblock _ _ _ hbody
  have hall := (Consumes.advance hs).cons ((consumes_of_expect hopening).cons (hl.trans hl'))
  rw [List.append_assoc] at hall
  exact .of_primary hall (.function hD hD')

include hexp hblock in
/-- What begins with a lexeme and is wrapped by no operator after it. -/
theorem reads_primaryAt {s s' : ParserState} {e : Expr} {x : Lexeme} {rest : List Lexeme}
    (hs : s.lexemes = x :: rest) (h : primaryAt expression block x s = .ok e s') :
    ReadsPrimary s e s' := by
  obtain ⟨token, span⟩ := x
  have hstep := Consumes.advance hs
  unfold primaryAt at h
  dsimp only at h
  cases token with
  | name text =>
    cases h
    exact .of_primary hstep .name
  | integer value =>
    cases h
    exact .of_primary hstep .integer
  | string value =>
    cases h
    exact .of_primary hstep .string
  | comment => cases h
  | eof => cases h
  | keyword word =>
    cases word with
    | trueWord =>
      cases h
      exact .of_primary hstep .trueLiteral
    | falseWord =>
      cases h
      exact .of_primary hstep .falseLiteral
    | functionWord => exact reads_function hblock hs h
    | _ => cases h
  | symbol sign =>
    cases sign with
    | leftParen =>
      obtain ⟨_, s₁, hadvance, h⟩ := bind_eq_ok_iff.1 h
      cases hadvance
      obtain ⟨inner, s₂, hinner, h⟩ := bind_eq_ok_iff.1 h
      obtain ⟨close, s₃, hclose, h⟩ := bind_eq_ok_iff.1 h
      cases h
      obtain ⟨l, hl, hD⟩ := reads_lowest hexp _ _ _ hinner
      exact .of_primary (hstep.cons (hl.trans (consumes_of_expect hclose))) (.group hD)
    | leftBracket =>
      obtain ⟨_, s₁, hadvance, h⟩ := bind_eq_ok_iff.1 h
      cases hadvance
      obtain ⟨⟨es, stop⟩, s₂, hes, h⟩ := bind_eq_ok_iff.1 h
      cases h
      obtain ⟨l, close, hl, rfl, hD⟩ := reads_list (reads_expressionItem hexp) _ hes
      exact .of_primary (hstep.cons hl) (.array hD)
    | leftBrace =>
      obtain ⟨_, s₁, hadvance, h⟩ := bind_eq_ok_iff.1 h
      cases hadvance
      obtain ⟨⟨ps, stop⟩, s₂, hps, h⟩ := bind_eq_ok_iff.1 h
      cases h
      obtain ⟨l, close, hl, rfl, hD⟩ := reads_list (reads_pair hexp) _ hps
      exact .of_primary (hstep.cons hl) (.map hD)
    | plus => exact reads_unary hexp .plus hs rfl h
    | minus => exact reads_unary hexp .minus hs rfl h
    | bang => exact reads_unary hexp .not hs rfl h
    | _ => cases h

include hexp hblock in
theorem reads_primary {s s' : ParserState} {e : Expr}
    (h : primary expression block s = .ok e s') : ReadsPrimary s e s' := by
  rw [primary, get_bind] at h
  cases hs : s.lexemes with
  | nil =>
    rw [hs] at h
    cases h
  | cons x rest =>
    rw [hs] at h
    exact reads_primaryAt hexp hblock hs h

include hexp in
/-- **An operator around what has been read so far** makes a phrase of its own tier, if it is not
too strong for what it finds on its left. -/
theorem reads_wrap {s s' : ParserState} {left e : Expr} {l₀ : List Lexeme} {tier : Tier}
    {op : Operator} (hleft : Derives (.expression tier) l₀ left)
    (hop : s.operator? = some op) (hfollow : op.precedence.rank ≤ tier.follow)
    (h : wrap expression left op s = .ok e s') :
    ∃ l, Consumes s l s' ∧ Derives (.expression op.tier) (l₀ ++ l) e ∧
      s'.precedence.rank ≤ op.tier.follow := by
  obtain ⟨span, rest, hs⟩ := s.exists_cons_of_operator? hop
  have hstep := Consumes.advance hs
  obtain ⟨_, s₁, hadvance, h⟩ := bind_eq_ok_iff.1 h
  cases hadvance
  -- the left side of every operator but `=` may be of the operator's own tier
  have hrank := Nat.le_trans hfollow tier.follow_le_rank
  rw [← Operator.rank_tier] at hrank
  cases op with
  | binary op =>
    obtain ⟨right, s₂, hright, h⟩ := bind_eq_ok_iff.1 h
    cases h
    obtain ⟨l, hl, hD, hnext⟩ := hexp _ _ _ _ (Operator.rightPrecedence_ne_call op) hright
    rw [Operator.tier_rightPrecedence] at hD
    rw [Operator.rank_rightPrecedence] at hnext
    exact ⟨_, hstep.cons hl, .binary (hleft.weaken hrank) hD, hnext⟩
  | assign =>
    obtain ⟨value, s₂, hvalue, h⟩ := bind_eq_ok_iff.1 h
    cases h
    obtain ⟨l, hl, hD, hnext⟩ := hexp .lowest _ _ _ (by simp) hvalue
    -- an assignment that has been read has taken every operator after it
    have htarget : Tier.rank .comparison ≤ tier.rank := by
      cases tier <;> simp [Tier.follow, Tier.rank, Operator.precedence, Precedence.rank] at *
    exact ⟨_, hstep.cons hl, .assign (hleft.weaken htarget) hD, hnext⟩
  | call =>
    obtain ⟨⟨es, stop⟩, s₂, hes, h⟩ := bind_eq_ok_iff.1 h
    cases h
    obtain ⟨l, close, hl, rfl, hD⟩ := reads_list (reads_expressionItem hexp) _ hes
    exact ⟨_, hstep.cons hl, .call (hleft.weaken hrank) hD, precedence_rank_le _⟩
  | index =>
    obtain ⟨key, s₂, hkey, h⟩ := bind_eq_ok_iff.1 h
    obtain ⟨close, s₃, hclose, h⟩ := bind_eq_ok_iff.1 h
    cases h
    obtain ⟨l, hl, hD⟩ := reads_lowest hexp _ _ _ hkey
    exact ⟨_, hstep.cons (hl.trans (consumes_of_expect hclose)),
      .index (hleft.weaken hrank) hD, precedence_rank_le _⟩

end Pieces

/-! ### Pieces of nodes -/

section Nodes

variable {expression : Parse Expr} {block : Parse Block}
  (hexp : Reads (Derives (.expression .assignment)) expression)
  (hblock : Reads (Derives .block) block)

include hexp in
theorem reads_binding : Reads (Derives .node) (binding expression) := by
  intro s n s' h
  obtain ⟨opening, s₁, hopening, h⟩ := bind_eq_ok_iff.1 h
  obtain ⟨ident, s₂, hident, h⟩ := bind_eq_ok_iff.1 h
  obtain ⟨sign, s₃, hsign, h⟩ := bind_eq_ok_iff.1 h
  obtain ⟨value, s₄, hvalue, h⟩ := bind_eq_ok_iff.1 h
  cases h
  obtain ⟨l, hl, hD⟩ := hexp _ _ _ hvalue
  exact ⟨_, (consumes_of_expect hopening).cons ((consumes_of_expectName hident).cons
    ((consumes_of_expect hsign).cons hl)), .binding hD⟩

include hexp in
theorem reads_returning : Reads (Derives .node) (returning expression) := by
  intro s n s' h
  obtain ⟨opening, s₁, hopening, h⟩ := bind_eq_ok_iff.1 h
  rw [get_bind] at h
  split at h
  · cases h
    exact ⟨_, consumes_of_expect hopening, .returningNothing⟩
  · obtain ⟨value, s₂, hvalue, h⟩ := bind_eq_ok_iff.1 h
    cases h
    obtain ⟨l, hl, hD⟩ := hexp _ _ _ hvalue
    exact ⟨_, (consumes_of_expect hopening).cons hl, .returning hD⟩

include hexp hblock

theorem reads_conditionalWithin : ∀ n,
    Reads (Derives .conditional) (conditionalWithin expression block n)
  | 0, s, c, s', h => by cases h
  | n + 1, s, c, s', h => by
    rw [conditionalWithin] at h
    obtain ⟨opening, s₁, hopening, h⟩ := bind_eq_ok_iff.1 h
    obtain ⟨condition, s₂, hcondition, h⟩ := bind_eq_ok_iff.1 h
    obtain ⟨consequence, s₃, hconsequence, h⟩ := bind_eq_ok_iff.1 h
    obtain ⟨l, hl, hD⟩ := hexp _ _ _ hcondition
    obtain ⟨l', hl', hD'⟩ := hblock _ _ _ hconsequence
    rw [comes_bind] at h
    split at h
    · next helse =>
      obtain ⟨span, rest, hs⟩ := exists_cons_of_lookahead (by simp) helse
      obtain ⟨_, s₄, hadvance, h⟩ := bind_eq_ok_iff.1 h
      cases hadvance
      -- up to the `else`
      have htaken := hl.trans (hl'.trans (Consumes.advance hs))
      rw [comes_bind] at h
      split at h
      · obtain ⟨inner, s₅, hinner, h⟩ := bind_eq_ok_iff.1 h
        cases h
        obtain ⟨l'', hl'', hD''⟩ := reads_conditionalWithin n _ _ _ hinner
        -- the chain goes on with another `if`
        have hall := (consumes_of_expect hopening).cons (htaken.trans hl'')
        simp only [List.append_assoc, List.cons_append, List.nil_append] at hall
        exact ⟨_, hall, .conditionalElse hD hD' (.alternativeConditional hD'')⟩
      · obtain ⟨alternative, s₅, halternative, h⟩ := bind_eq_ok_iff.1 h
        cases h
        obtain ⟨l'', hl'', hD''⟩ := hblock _ _ _ halternative
        -- the chain ends with a block
        have hall := (consumes_of_expect hopening).cons (htaken.trans hl'')
        simp only [List.append_assoc, List.cons_append, List.nil_append] at hall
        exact ⟨_, hall, .conditionalElse hD hD' (.alternativeBlock hD'')⟩
    · cases h
      exact ⟨_, (consumes_of_expect hopening).cons (hl.trans hl'), .conditional hD hD'⟩

theorem reads_node : Reads (Derives .node) (node expression block) := by
  intro s n s' h
  rw [node, get_bind] at h
  refine (?_ : Reads (Derives .node) _) s n s' h
  split
  · exact reads_binding hexp
  · exact reads_returning hexp
  · intro s n s' h
    obtain ⟨l, hl, hD⟩ := reads_conditionalWithin hexp hblock _ s n s' h
    exact ⟨l, hl, .conditionalNode hD⟩
  · intro s n s' h
    rw [map_eq_pure_bind] at h
    obtain ⟨e, s₁, he, h⟩ := bind_eq_ok_iff.1 h
    cases h
    obtain ⟨l, hl, hD⟩ := hexp _ _ _ he
    exact ⟨l, hl, .expressionNode hD⟩
  · intro s n s' h
    cases h

end Nodes

/-! ### Bodies and blocks -/

theorem derives_semicolons {l l' : List Lexeme} {ns : List Node} (hl : Semicolons l)
    (h : Derives .body l' ns) : Derives .body (l ++ l') ns := by
  induction l with
  | nil => exact h
  | cons x l ih =>
    obtain ⟨token, span⟩ := x
    obtain rfl : token = .symbol .semicolon := hl _ List.mem_cons_self
    exact .semicolon (ih fun y hy => hl y (List.mem_cons_of_mem _ hy))

/-- A node is followed by a semicolon, which is taken, or by the closing token; or it needs
nothing to follow. -/
theorem terminator_spec {n : Node} {closing : Token} {s s' : ParserState} {u : Unit}
    (h : terminator n closing s = .ok u s') :
    (∃ span, Consumes s [⟨.symbol .semicolon, span⟩] s') ∨
      s' = s ∧ (s.Comes closing ∨ n.endsWithBlock = true) := by
  rw [terminator, get_bind] at h
  rcases hlook : s.lookahead? with _ | ⟨token, span⟩
  · rw [hlook] at h
    dsimp only at h
    -- without a lexeme ahead only a node that ends with a block is done
    by_cases hends : n.endsWithBlock = true
    · rw [if_pos hends] at h
      cases h
      exact .inr ⟨rfl, .inr hends⟩
    · rw [if_neg hends] at h
      cases h
  · rw [hlook] at h
    dsimp only at h
    by_cases hsemi : token = .symbol .semicolon
    · rw [if_pos hsemi] at h
      cases h
      have hcomes : s.Comes (.symbol .semicolon) := by
        rw [ParserState.Comes, hlook, hsemi]
        exact beq_self_eq_true _
      obtain ⟨span, rest, hs⟩ := exists_cons_of_lookahead (by simp) hcomes
      exact .inl ⟨span, .advance hs⟩
    · rw [if_neg hsemi] at h
      by_cases hend : (token = closing || n.endsWithBlock) = true
      · rw [if_pos hend] at h
        cases h
        refine .inr ⟨rfl, ?_⟩
        rw [ParserState.Comes, hlook]
        simpa using hend
      · rw [if_neg hend] at h
        split at h <;> cases h

/-- A node and the nodes after it make a body, if what follows the node allows it. Before the
closing token of the body, nothing is left for the nodes after it. -/
theorem derives_body_of_terminator {n : Node} {ns : List Node} {closing : Token}
    {s s' s'' : ParserState} {l l' : List Lexeme} {u : Unit} (hl : Derives .node l n)
    (h : terminator n closing s = .ok u s') (hl' : Consumes s' l' s'') (hns : Derives .body l' ns)
    (hclosing : Phrase.body.begins closing = false) :
    ∃ l₁, Consumes s l₁ s'' ∧ Derives .body (l ++ l₁) (n :: ns) := by
  rcases terminator_spec h with ⟨span, hsemi⟩ | ⟨rfl, hclose | hends⟩
  · exact ⟨_, hsemi.cons hl', .terminatedNode hl hns⟩
  · -- a body that is not empty would begin with the closing token
    have hempty : l' = [] := by
      have hbegins := hns.begins
      rcases l' with _ | ⟨x, rest⟩
      · rfl
      · obtain ⟨hlexemes, -, -⟩ := hl'
        rw [ParserState.Comes, ParserState.lookahead?, hlexemes] at hclose
        have htoken : x.token = closing := by simpa using hclose
        rw [Phrase.BeginsOf, htoken, hclosing] at hbegins
        cases hbegins
    subst hempty
    obtain rfl := eq_nil_of_derives_nil hns
    refine ⟨[], hl', ?_⟩
    rw [List.append_nil]
    exact .lastNode hl
  · exact ⟨l', hl', .conditionalInBody (hl.conditional_of_endsWithBlock hends) hns⟩

section Blocks

variable {node : Parse Node} (hnode : Reads (Derives .node) node)
include hnode

theorem reads_nodesWithin : ∀ (n : Nat) {s s' : ParserState} {ns : List Node} {stop : UInt32},
    nodesWithin node n s = .ok (ns, stop) s' →
    ∃ l s₁ span, Consumes s l s₁ ∧ Derives .body l ns ∧
      Consumes s₁ [⟨.symbol .rightBrace, span⟩] s' ∧ span.stop = stop
  | 0, s, s', ns, stop, h => by cases h
  | n + 1, s, s', ns, stop, h => by
    rw [nodesWithin] at h
    obtain ⟨_, s₁, hskip, h⟩ := bind_eq_ok_iff.1 h
    obtain ⟨l, hl, hsemi, -⟩ := consumes_of_skipSemicolons hskip
    rw [comes_bind] at h
    split at h
    · obtain ⟨close, s₂, hclose, h⟩ := bind_eq_ok_iff.1 h
      cases h
      refine ⟨l, s₁, close, hl, ?_, consumes_of_expect hclose, rfl⟩
      rw [← List.append_nil l]
      exact derives_semicolons hsemi .emptyBody
    · obtain ⟨x, s₂, hx, h⟩ := bind_eq_ok_iff.1 h
      obtain ⟨_, s₃, hend, h⟩ := bind_eq_ok_iff.1 h
      obtain ⟨⟨xs, stop'⟩, s₄, hxs, h⟩ := bind_eq_ok_iff.1 h
      cases h
      -- semicolons, a node, what has to follow it, and the rest of the block
      obtain ⟨l₁, hl₁, hD⟩ := hnode _ _ _ hx
      obtain ⟨l₂, s₅, close, hl₂, hD', hclose, hstop⟩ := reads_nodesWithin n hxs
      obtain ⟨l₃, hl₃, hbody⟩ := derives_body_of_terminator hD hend hl₂ hD' rfl
      exact ⟨_, s₅, close, hl.trans (hl₁.trans hl₃), derives_semicolons hsemi hbody, hclose, hstop⟩

theorem reads_braced : Reads (Derives .block) (braced node) := by
  intro s b s' h
  obtain ⟨opening, s₁, hopening, h⟩ := bind_eq_ok_iff.1 h
  rw [get_bind] at h
  obtain ⟨⟨ns, stop⟩, s₂, hns, h⟩ := bind_eq_ok_iff.1 h
  cases h
  obtain ⟨l, s₃, close, hl, hD, hclose, rfl⟩ := reads_nodesWithin hnode _ hns
  exact ⟨_, (consumes_of_expect hopening).cons (hl.trans hclose), .block hD⟩

end Blocks

/-! ### Expressions and blocks within a number of levels -/

/-- What reading operators does: it stops before one that binds no tighter than the place, or
the operator wraps what has been read so far and the rest is read with a level less. -/
theorem operators_cases {levels : Nat} {place : Precedence} {s s' : ParserState} {left e : Expr}
    (h : operators levels place left s = .ok e s') :
    (e = left ∧ s' = s ∧ s.precedence.rank ≤ place.rank) ∨
      ∃ n op wrapped s₁, levels = n + 1 ∧ s.operator? = some op ∧
        place.rank < op.precedence.rank ∧ wrap (expression n) left op s = .ok wrapped s₁ ∧
        operators n place wrapped s₁ = .ok e s' := by
  cases hop : s.operator? with
  | none =>
    -- without an operator ahead nothing binds tighter than the place
    have hnext : s.precedence.rank ≤ place.rank := by
      rw [ParserState.precedence, hop]
      exact Nat.zero_le _
    cases levels <;>
    · rw [operators, get_bind, hop] at h
      cases h
      exact .inl ⟨rfl, rfl, hnext⟩
  | some op =>
    by_cases hlt : place.rank < op.precedence.rank
    · cases levels with
      -- at the last level an operator that binds tighter is refused
      | zero =>
        rw [operators, get_bind, hop] at h
        dsimp only at h
        rw [if_pos hlt] at h
        cases h
      | succ n =>
        rw [operators, get_bind, hop] at h
        dsimp only at h
        rw [if_pos hlt] at h
        obtain ⟨wrapped, s₁, hwrapped, h⟩ := bind_eq_ok_iff.1 h
        exact .inr ⟨n, op, wrapped, s₁, rfl, rfl, hlt, hwrapped, h⟩
    · have hnext : s.precedence.rank ≤ place.rank := by
        rw [ParserState.precedence, hop]
        exact Nat.le_of_not_lt hlt
      cases levels <;>
      · rw [operators, get_bind, hop] at h
        dsimp only at h
        rw [if_neg hlt] at h
        cases h
        exact .inl ⟨rfl, rfl, hnext⟩

/-- An operator that binds tighter than a place makes a phrase that may stand there. -/
theorem rank_tier_le_of_lt {place : Precedence} {op : Operator} (hplace : place ≠ .call)
    (hlt : place.rank < op.precedence.rank) : place.tier.rank ≤ op.tier.rank := by
  rw [op.rank_tier]
  cases place <;> simp [Precedence.tier, Tier.rank, Precedence.rank] at * <;> omega

/-- What has been read so far stays as it is before an operator that is too weak. -/
theorem stops {place : Precedence} {tier : Tier} {s : ParserState} {e : Expr} {l₀ : List Lexeme}
    (hD : Derives (.expression tier) l₀ e) (hrank : place.tier.rank ≤ tier.rank)
    (hnext : s.precedence.rank ≤ place.rank) :
    ∃ l, Consumes s l s ∧ Derives (.expression place.tier) (l₀ ++ l) e ∧
      s.precedence.rank ≤ place.rank := by
  refine ⟨[], .refl s, ?_, hnext⟩
  rw [List.append_nil]
  exact hD.weaken hrank

mutual

/-- **Expressions are read** as the grammar says. -/
theorem reads_expression : ∀ levels, ReadsExpressions (expression levels)
  | 0, _, _, _, _, _, h => by cases h
  | levels + 1, place, s, e, s', hplace, h => by
    obtain ⟨left, s₁, hleft, h⟩ := bind_eq_ok_iff.1 h
    obtain ⟨l, tier, hl, hD, htier, hfollow⟩ :=
      reads_primary (reads_expression levels) (reads_block levels) hleft
    have hrank : place.tier.rank ≤ tier.rank := by
      refine Nat.le_trans ?_ htier
      cases place <;> simp [Precedence.tier, Tier.rank] at *
    obtain ⟨l', hl', hD', hnext⟩ := reads_operators levels hplace hD hrank hfollow h
    exact ⟨_, hl.trans hl', hD', hnext⟩
termination_by structural levels => levels

/-- Operators are read around what has been read so far, as long as they bind tighter than the
place. -/
theorem reads_operators : ∀ levels {place : Precedence} {s s' : ParserState} {left e : Expr}
    {l₀ : List Lexeme} {tier : Tier}, place ≠ .call → Derives (.expression tier) l₀ left →
    place.tier.rank ≤ tier.rank → s.precedence.rank ≤ tier.follow →
    operators levels place left s = .ok e s' →
    ∃ l, Consumes s l s' ∧ Derives (.expression place.tier) (l₀ ++ l) e ∧
      s'.precedence.rank ≤ place.rank
  | 0, place, s, s', left, e, l₀, tier, _, hleft, hrank, _, h => by
    rcases operators_cases h with ⟨rfl, rfl, hnext⟩ | ⟨n, -, -, -, hn, -⟩
    · exact stops hleft hrank hnext
    · cases hn
  | levels + 1, place, s, s', left, e, l₀, tier, hplace, hleft, hrank, hfollow, h => by
    rcases operators_cases h with
      ⟨rfl, rfl, hnext⟩ | ⟨n, op, wrapped, s₁, hn, hop, hlt, hwrapped, h⟩
    · exact stops hleft hrank hnext
    · cases hn
      -- the operator is not too strong for its left side, since it was left over by that
      have hleftover : op.precedence.rank ≤ tier.follow := by
        rw [ParserState.precedence, hop] at hfollow
        exact hfollow
      obtain ⟨l, hl, hD, hnext⟩ :=
        reads_wrap (reads_expression levels) hleft hop hleftover hwrapped
      obtain ⟨l', hl', hD', hnext'⟩ :=
        reads_operators levels hplace hD (rank_tier_le_of_lt hplace hlt) hnext h
      rw [List.append_assoc] at hD'
      exact ⟨_, hl.trans hl', hD', hnext'⟩
termination_by structural levels => levels

/-- **Blocks are read** as the grammar says. -/
theorem reads_block : ∀ levels, Reads (Derives .block) (block levels)
  | 0, _, _, _, h => by cases h
  | levels + 1, s, b, s', h =>
    reads_braced (reads_node (reads_lowest (reads_expression levels)) (reads_block levels)) s b s' h
termination_by structural levels => levels

end

/-! ### Programs -/

/-- The next node of a program, after any semicolons, with what has to follow it. -/
theorem nextNode_spec {levels : Nat} {s s' : ParserState} {next : Option Node}
    (h : nextNode levels s = .ok next s') :
    ∃ l s₁, Consumes s l s₁ ∧ Semicolons l ∧
      match next with
      | none => s' = s₁ ∧ s₁.Comes .eof
      | some n => ∃ l' s₂, Consumes s₁ l' s₂ ∧ Derives .node l' n ∧
          terminator n .eof s₂ = .ok () s' := by
  rw [nextNode] at h
  obtain ⟨_, s₁, hskip, h⟩ := bind_eq_ok_iff.1 h
  obtain ⟨l, hl, hsemi, -⟩ := consumes_of_skipSemicolons hskip
  refine ⟨l, s₁, hl, hsemi, ?_⟩
  rw [get_bind] at h
  rcases hlook : s₁.lookahead? with _ | ⟨token, span⟩
  · rw [hlook] at h
    cases h
  · rw [hlook] at h
    by_cases hend : token = .eof
    · subst hend
      cases h
      exact ⟨rfl, by rw [ParserState.Comes, hlook]; rfl⟩
    · -- any token but the end begins a node
      have h : (node (expression levels .lowest) (block levels) >>= fun x =>
          terminator x .eof >>= fun _ => pure (some x)) s₁ = .ok next s' := by
        cases token <;> first | exact h | exact absurd rfl hend
      obtain ⟨x, s₂, hx, h⟩ := bind_eq_ok_iff.1 h
      obtain ⟨_, s₃, hterminator, h⟩ := bind_eq_ok_iff.1 h
      cases h
      obtain ⟨l', hl', hD⟩ :=
        reads_node (reads_lowest (reads_expression levels)) (reads_block levels) _ _ _ hx
      exact ⟨l', s₂, hl', hD, hterminator⟩

/-- A node takes at least one lexeme. -/
theorem length_lt_of_nextNode {levels : Nat} {s s' : ParserState} {x : Node}
    (h : nextNode levels s = .ok (some x) s') : s'.lexemes.length < s.lexemes.length := by
  obtain ⟨l, s₁, hl, -, l₁, s₂, hl₁, hD, hterminator⟩ := nextNode_spec h
  obtain ⟨x, rest, rfl, -⟩ := hD.begins.exists_cons rfl
  have h₁ := hl.length_le
  have h₂ := hl₁.length_lt (by simp)
  have h₃ : s'.lexemes.length ≤ s₂.lexemes.length := by
    rcases terminator_spec hterminator with ⟨span, hsemi⟩ | ⟨rfl, -⟩
    · exact hsemi.length_le
    · exact Nat.le_refl _
  omega

theorem reads_programWithin (levels : Nat) : ∀ (n : Nat) {s s' : ParserState} {ns : List Node},
    s.lexemes.length < n → programWithin levels n s = .ok ns s' →
    ∃ l, Consumes s l s' ∧ Derives .body l ns ∧ s'.Comes .eof
  | 0, s, s', ns, hn, h => by omega
  | n + 1, s, s', ns, hn, h => by
    rw [programWithin] at h
    obtain ⟨next, s₁, hnext, h⟩ := bind_eq_ok_iff.1 h
    obtain ⟨l, s₂, hl, hsemi, hcase⟩ := nextNode_spec hnext
    cases next with
    | none =>
      obtain ⟨rfl, hend⟩ := hcase
      cases h
      refine ⟨l, hl, ?_, hend⟩
      rw [← List.append_nil l]
      exact derives_semicolons hsemi .emptyBody
    | some x =>
      obtain ⟨l₁, s₃, hl₁, hD, hterminator⟩ := hcase
      obtain ⟨xs, s₄, hxs, h⟩ := bind_eq_ok_iff.1 h
      cases h
      -- a node takes at least one lexeme, so the bound on their number still suffices
      have hlength := length_lt_of_nextNode hnext
      obtain ⟨l₂, hl₂, hD', hend⟩ := reads_programWithin levels n (by omega) hxs
      obtain ⟨l₃, hl₃, hbody⟩ := derives_body_of_terminator hD hterminator hl₂ hD' rfl
      exact ⟨_, hl.trans (hl₁.trans hl₃), derives_semicolons hsemi hbody, hend⟩

/-- **The program that is read from a stream is the program of its lexemes**, and the stream ends
with its text. -/
theorem isProgram_of_program {levels : Nat} {stream : LexemeStream} {p : Program}
    {s' : ParserState} (hstream : ∀ x ∈ stream.lexemes, x.token ≠ .eof)
    (h : program levels (.ofStream stream) = .ok p s') :
    ∃ offset, stream.ending = .eof offset ∧ IsProgram stream.lexemes offset p := by
  rw [program, get_bind] at h
  obtain ⟨_, _, hget, h⟩ := bind_eq_ok_iff.1 h
  cases hget
  obtain ⟨ns, s₁, hns, h⟩ := bind_eq_ok_iff.1 h
  cases h
  obtain ⟨l, ⟨hlexemes, hending, hstop⟩, hD, hend⟩ := reads_programWithin levels _ (by simp) hns
  -- the end comes next and no lexeme is one, so none is left
  have hrest : s'.lexemes = [] := by
    cases hs : s'.lexemes with
    | nil => rfl
    | cons x rest =>
      refine absurd ?_ (hstream x ?_)
      · rw [ParserState.Comes, ParserState.lookahead?, hs] at hend
        simpa using hend
      · show x ∈ (ParserState.ofStream stream).lexemes
        rw [hlexemes, hs]
        simp
  obtain ⟨lexemes, comments, ending⟩ := stream
  obtain rfl : lexemes = l := by
    rw [hrest, List.append_nil] at hlexemes
    exact hlexemes
  rw [ParserState.Comes, ParserState.lookahead?, hrest, hending] at hend
  cases ending with
  | broken error => cases hend
  | eof offset =>
    refine ⟨offset, rfl, hD, ?_⟩
    rw [hstop]
    cases lexemes <;> rfl

end Parse

end Script
