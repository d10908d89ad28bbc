import Script.Proofs.Parser.Gives

/-!
# What is in the language is read

Given the lexemes of a phrase, the parser of that phrase takes exactly those and gives their tree,
unless the nesting is too deep. Where a phrase ends is not marked in general, so what may come after
it is a condition: after an expression no operator that is stronger than its tier allows, after an
`if` no `else`, after a node one of the tokens that end it.

* `Reaches.wrap`: an operator after an expression wraps it;
* `accepted_of_derives`: every phrase is read.
-/

namespace Script

open Grammar

namespace Parse

variable {α : Type} {few : Prop} {s s' s₁ s₂ : ParserState}

/-! ### Expressions and the operators after them -/

/-- An expression has been read so far with some levels used up, unless those are all and the
nesting is too deep: what is left to do is to read the operators after it. -/
def Reaches (levels used : Nat) (place : Precedence) (s : ParserState) (e : Expr)
    (s' : ParserState) : Prop :=
  levels ≤ used ∧ TooDeep (expression levels place s) ∨
    ∃ left, levels ≤ left + used ∧ expression levels place s = operators left place e s'

/-- No operator is taken that binds no tighter than the place. -/
theorem operators_eq_ok {place : Precedence} (levels : Nat) (e : Expr)
    (h : s.precedence.rank ≤ place.rank) : operators levels place e s = .ok e s := by
  have hle {op : Operator} (hop : s.operator? = some op) :
      ¬ place.rank < op.precedence.rank := by
    rw [ParserState.precedence, hop] at h
    exact Nat.not_lt.2 h
  -- the levels matter only where an operator is taken
  cases levels with
  | zero | succ =>
    rw [operators, get_bind]
    cases hop : s.operator? with
    | none => rfl
    | some op =>
      dsimp only
      rw [if_neg (hle hop)]
      rfl

/-- A lookahead that binds tighter than the place is an operator. -/
theorem exists_operator?_of_lt {place : Precedence} (h : place.rank < s.precedence.rank) :
    ∃ op, s.operator? = some op ∧ place.rank < op.precedence.rank := by
  rw [ParserState.precedence] at h
  cases hop : s.operator? with
  | none =>
    rw [hop] at h
    exact absurd h (Nat.not_lt_zero _)
  | some op =>
    rw [hop] at h
    exact ⟨op, rfl, h⟩

theorem operators_zero_of_lt {place : Precedence} {op : Operator} (left : Expr)
    (hop : s.operator? = some op) (hlt : place.rank < op.precedence.rank) :
    operators 0 place left s = failTooDeep s := by
  rw [operators, get_bind, hop]
  dsimp only
  rw [if_pos hlt]

theorem operators_succ_of_lt {place : Precedence} {op : Operator} (levels : Nat) (left : Expr)
    (hop : s.operator? = some op) (hlt : place.rank < op.precedence.rank) :
    operators (levels + 1) place left s =
      (wrap (expression levels) left op >>= fun e => operators levels place e) s := by
  rw [operators, get_bind, hop]
  dsimp only
  rw [if_pos hlt]

namespace Reaches

variable {levels used : Nat} {place : Precedence} {e : Expr}

theorem gives (h : Reaches levels used place s e s') (hnext : s'.precedence.rank ≤ place.rank) :
    Gives (levels ≤ used) (expression levels place) s e s' := by
  rcases h with h | ⟨left, -, h⟩
  · exact .inl h
  · exact .inr (h.trans (operators_eq_ok left e hnext))

theorem of_primary (hused : 0 < used)
    (h : ∀ levels, Gives (levels < used) (primary (expression levels) (block levels)) s e s') :
    Reaches levels used place s e s' := by
  cases levels with
  | zero => exact .inl ⟨Nat.zero_le used, tooDeep_failTooDeep s⟩
  | succ levels =>
    rcases h levels with ⟨hfew, h⟩ | h
    · exact .inl ⟨hfew, tooDeep_bind h⟩
    · exact .inr ⟨levels, Nat.add_le_add_left hused levels, bind_ok h⟩

/-- **An operator that binds tighter than the place** wraps the expression before it, and uses up a
level. -/
theorem wrap {left : Expr} {op : Operator} {used' : Nat} (h : Reaches levels used place s left s₁)
    (hop : s₁.operator? = some op) (hlt : place.rank < op.precedence.rank) (hused : used < used')
    (hwrap : ∀ levels, Gives (levels + used < used')
      (Parse.wrap (expression levels) left op) s₁ e s') :
    Reaches levels used' place s e s' := by
  rcases h with ⟨hfew, h⟩ | ⟨n, hn, h⟩
  · exact .inl ⟨Nat.le_trans hfew (Nat.le_of_lt hused), h⟩
  · rw [Reaches, h]
    cases n with
    | zero =>
      -- the levels before were just enough for what stands before the operator
      rw [operators, get_bind, hop]
      dsimp only
      rw [if_pos hlt]
      exact .inl ⟨by omega, tooDeep_failTooDeep s₁⟩
    | succ n =>
      rw [operators, get_bind, hop]
      dsimp only
      rw [if_pos hlt]
      rcases hwrap n with ⟨hfew, hwrap⟩ | hwrap
      · exact .inl ⟨by omega, tooDeep_bind hwrap⟩
      · exact .inr ⟨n, by omega, bind_ok hwrap⟩

end Reaches

/-- What begins with a lexeme is read as what that lexeme begins. -/
theorem gives_primary {expression : Precedence → Parse Expr} {block : Parse Block} {x : Lexeme}
    {l : List Lexeme} {e : Expr} (hx : Consumes s (x :: l) s₁)
    (h : Gives few (primaryAt expression block x) s e s') :
    Gives few (primary expression block) s e s' := by
  have heq : primary expression block s = primaryAt expression block x s := by
    rw [primary, get_bind, hx.lexemes_cons]
  rw [Gives, heq]
  exact h

/-! ### Lists -/

/-- The symbols that close a list. -/
def Closes (closing : Symbol) : Prop :=
  closing = .rightParen ∨ closing = .rightBracket ∨ closing = .rightBrace

theorem Closes.precedence_eq {closing : Symbol} {c : Span} (h : Closes closing)
    (hs : Consumes s [⟨.symbol closing, c⟩] s') : s.precedence = .lowest := by
  rw [hs.precedence_eq]
  rcases h with rfl | rfl | rfl <;> rfl

theorem Closes.not_begins {closing : Symbol} (h : Closes closing) :
    beginsExpression (.symbol closing) = false := by
  rcases h with rfl | rfl | rfl <;> rfl

section Lists

variable {item : Parse α} {xs : List α} {x : α}

theorem gives_afterCommas_nil (n : Nat) (h : ¬ s.Comes (.symbol .comma)) :
    Gives few (afterCommasWithin item n) s [] s := by
  refine .of_ok ?_
  cases n with
  | zero => rfl
  | succ n =>
    rw [afterCommasWithin, bind_ok (comes_of_not_comes h)]
    rfl

theorem gives_afterCommas_cons {n : Nat} {span : Span} {l : List Lexeme}
    (hcomma : Consumes s (⟨.symbol .comma, span⟩ :: l) s') (hx : Gives few item s.advance x s₁)
    (hxs : Gives few (afterCommasWithin item n) s₁ xs s₂) :
    Gives few (afterCommasWithin item (n + 1)) s (x :: xs) s₂ := by
  rw [Gives, afterCommasWithin, bind_ok (comes_of_comes hcomma.comes)]
  show Gives few (advance >>= fun _ => item >>= fun x => afterCommasWithin item n >>= fun xs =>
    pure (x :: xs)) s _ _
  exact Gives.after (advance_apply s) (hx.bind (hxs.bind (.of_ok rfl)))

theorem gives_list_nil {closing : Symbol} {c : Span} (h : Consumes s [⟨.symbol closing, c⟩] s') :
    Gives few (list item closing) s ([], c.stop) s' := by
  rw [Gives, list, bind_ok (comes_of_comes h.comes)]
  exact (gives_expect h).bind (.of_ok rfl)

theorem gives_list_cons {closing : Symbol} {c : Span} (hs : ¬ s.Comes (.symbol closing))
    (hx : Gives few item s x s₁) (hxs : Gives few (afterCommas item) s₁ xs s₂)
    (h : Consumes s₂ [⟨.symbol closing, c⟩] s') :
    Gives few (list item closing) s (x :: xs, c.stop) s' := by
  rw [Gives, list, bind_ok (comes_of_not_comes hs)]
  exact hx.bind (hxs.bind ((gives_expect h).bind (.of_ok rfl)))

end Lists

/-! ### Nodes -/

/-- What ends a node: a token before which a `return` may be without a value. -/
def Ends (s : ParserState) : Prop :=
  s.lookahead?.any (endsReturn ·.token) = true

theorem Ends.precedence_eq (h : Ends s) : s.precedence = .lowest := by
  obtain ⟨⟨token, span⟩, hx, hends⟩ := Option.any_eq_true _ _ |>.1 h
  rw [ParserState.precedence, ParserState.operator?, hx]
  unfold endsReturn at hends
  dsimp only at hends
  split at hends <;> first | rfl | cases hends

theorem Ends.not_comes (h : Ends s) : ¬ s.Comes (.keyword .elseWord) := by
  obtain ⟨⟨token, span⟩, hx, hends⟩ := Option.any_eq_true _ _ |>.1 h
  rw [ParserState.Comes, hx]
  rintro hcomes
  obtain rfl : token = .keyword .elseWord := by simpa using hcomes
  cases hends

theorem ends_of_comes {token : Token} (h : s.Comes token) (htoken : endsReturn token = true) :
    Ends s := by
  rw [ParserState.Comes, beq_iff_eq, Option.map_eq_some_iff] at h
  obtain ⟨x, hx, rfl⟩ := h
  rw [Ends, hx]
  exact htoken

theorem not_endsReturn_of_begins {token : Token} (h : beginsExpression token = true) :
    endsReturn token = false := by
  unfold endsReturn
  split <;> first | rfl | cases h

section Nodes

variable {expression : Parse Expr} {block : Parse Block}

theorem node_eq_binding {span : Span} {l : List Lexeme}
    (h : Consumes s (⟨.keyword .letWord, span⟩ :: l) s') :
    node expression block s = binding expression s := by
  rw [node, get_bind, h.lookahead_eq]

theorem node_eq_returning {span : Span} {l : List Lexeme}
    (h : Consumes s (⟨.keyword .returnWord, span⟩ :: l) s') :
    node expression block s = returning expression s := by
  rw [node, get_bind, h.lookahead_eq]

theorem node_eq_conditional {span : Span} {l : List Lexeme}
    (h : Consumes s (⟨.keyword .ifWord, span⟩ :: l) s') :
    node expression block s = conditional expression block s := by
  rw [node, get_bind, h.lookahead_eq]

theorem node_eq_expression {x : Lexeme} {l : List Lexeme} (h : Consumes s (x :: l) s')
    (hx : beginsExpression x.token = true) :
    node expression block s = (Node.expression <$> expression) s := by
  rw [node, get_bind, h.lookahead_eq]
  obtain ⟨token, span⟩ := x
  cases token with
  | keyword word => cases word <;> first | rfl | cases hx
  | _ => rfl

/-- What stands after `else`. -/
def alternativeWithin (expression : Parse Expr) (block : Parse Block) (n : Nat) : Parse Block := do
  if ← comes (.keyword .ifWord) then
    let inner ← conditionalWithin expression block n
    return ⟨[inner], inner.span⟩
  else
    block

theorem conditionalWithin_succ (n : Nat) :
    conditionalWithin expression block (n + 1) = do
      let opening ← expect (.keyword .ifWord)
      let condition ← expression
      let consequence ← block
      if ← comes (.keyword .elseWord) then
        advance
        let alternative ← alternativeWithin expression block n
        return .conditional condition consequence (some alternative)
          ⟨opening.start, alternative.span.stop⟩
      else
        return .conditional condition consequence none ⟨opening.start, consequence.span.stop⟩ := by
  -- the same steps on both sides, up to what stands after `else`
  rw [conditionalWithin]
  congr
  funext opening
  congr
  funext condition
  congr
  funext consequence
  congr
  funext comesElse
  congr
  funext _
  rw [alternativeWithin, bind_assoc]
  congr
  funext comesIf
  cases comesIf with
  | true => exact (bind_assoc _ _ _).symm
  | false => rfl

section Conditionals

variable {n : Nat} {condition : Expr} {consequence : Block} {o : Span} {s₀ : ParserState}
  (ho : Consumes s [⟨.keyword .ifWord, o⟩] s₀) (hcondition : Gives few expression s₀ condition s₁)

include ho hcondition in
theorem gives_conditionalWithin (hconsequence : Gives few block s₁ consequence s')
    (helse : ¬ s'.Comes (.keyword .elseWord)) :
    Gives few (conditionalWithin expression block (n + 1)) s
      (.conditional condition consequence none ⟨o.start, consequence.span.stop⟩) s' := by
  rw [conditionalWithin_succ]
  refine (gives_expect ho).bind (hcondition.bind (hconsequence.bind ?_))
  exact Gives.after (comes_of_not_comes helse) (.of_ok rfl)

include ho hcondition in
theorem gives_conditionalWithin_else {alternative : Block}
    (hconsequence : Gives few block s₁ consequence s₂) (helse : s₂.Comes (.keyword .elseWord))
    (halternative : Gives few (alternativeWithin expression block n) s₂.advance alternative s') :
    Gives few (conditionalWithin expression block (n + 1)) s
      (.conditional condition consequence (some alternative) ⟨o.start, alternative.span.stop⟩)
      s' := by
  rw [conditionalWithin_succ]
  refine (gives_expect ho).bind (hcondition.bind (hconsequence.bind ?_))
  refine Gives.after (comes_of_comes helse) (Gives.after (advance_apply s₂) ?_)
  exact halternative.bind (.of_ok rfl)

end Conditionals

theorem gives_alternativeWithin {n : Nat} {inner : Node} (hif : s.Comes (.keyword .ifWord))
    (hinner : Gives few (conditionalWithin expression block n) s inner s') :
    Gives few (alternativeWithin expression block n) s ⟨[inner], inner.span⟩ s' :=
  Gives.after (comes_of_comes hif) (hinner.bind (.of_ok rfl))

end Nodes

/-! ### What follows a node -/

variable {n : Node} {closing : Token}

theorem terminator_of_semicolon {span : Span} {l : List Lexeme}
    (h : Consumes s (⟨.symbol .semicolon, span⟩ :: l) s') :
    terminator n closing s = .ok () s.advance := by
  rw [terminator, get_bind, h.lookahead_eq]
  dsimp only
  rw [if_pos rfl]
  rfl

theorem terminator_of_closing (h : s.Comes closing) (hne : closing ≠ .symbol .semicolon) :
    terminator n closing s = .ok () s := by
  rw [ParserState.Comes, beq_iff_eq, Option.map_eq_some_iff] at h
  obtain ⟨⟨token, span⟩, hx, rfl⟩ := h
  rw [terminator, get_bind, hx]
  dsimp only at hne ⊢
  rw [if_neg hne, if_pos (by simp)]
  rfl

theorem terminator_of_endsWithBlock (hn : n.endsWithBlock = true)
    (h : ¬ s.Comes (.symbol .semicolon)) : terminator n closing s = .ok () s := by
  rw [terminator, get_bind]
  rcases hx : s.lookahead? with _ | ⟨token, span⟩
  · dsimp only
    rw [if_pos hn]
    rfl
  · rw [ParserState.Comes, hx] at h
    dsimp only
    rw [if_neg (by simpa using h), if_pos (by simp [hn])]
    rfl

/-! ### Bodies -/

/-- A loop over the nodes of a body, up to a closing token. It passes semicolons, is done where
the closing token comes next, and takes a node with what has to follow it anywhere else. -/
structure BodyLoop (few : Prop) (closing : Token) (node : Parse Node) (run : Nat → Parse α)
    (result : List Node → α) (s' s'' : ParserState) : Prop where
  closing_ends : endsReturn closing = true
  closing_ne : closing ≠ .symbol .semicolon
  pass {n : Nat} {span : Span} {s : ParserState} {rest : List Lexeme} :
    s.lexemes = ⟨.symbol .semicolon, span⟩ :: rest → run (n + 1) s = run (n + 1) s.advance
  done {n : Nat} : s'.Comes closing → Gives few (run (n + 1)) s' (result []) s''
  next {n : Nat} {s s₁ s₂ s₃ : ParserState} {x : Lexeme} {l : List Lexeme} {t : Node}
    {ts : List Node} : Consumes s (x :: l) s₁ → beginsNode x.token = true → Gives few node s t s₂ →
    terminator t closing s₂ = .ok () s₃ → Gives few (run n) s₃ (result ts) s'' →
    Gives few (run (n + 1)) s (result (t :: ts)) s''

theorem beginsNode_ne {token : Token} (h : beginsNode token = true) :
    token ≠ .symbol .semicolon ∧ token ≠ .symbol .rightBrace ∧ token ≠ .eof := by
  refine ⟨?_, ?_, ?_⟩ <;> rintro rfl <;> cases h

theorem bodyLoop_nodesWithin {node : Parse Node} {c : Span}
    (h : Consumes s [⟨.symbol .rightBrace, c⟩] s') :
    BodyLoop few (.symbol .rightBrace) node (nodesWithin node) (fun ts => (ts, c.stop)) s s' where
  closing_ends := rfl
  closing_ne := by simp
  pass hs := by
    rw [nodesWithin, bind_congr_left (skipSemicolons_of_comes hs)]
  done hcomes := by
    rw [Gives, nodesWithin, bind_ok (skipSemicolons_of_not_comes (h.not_comes (by simp))),
      bind_ok (comes_of_comes hcomes)]
    exact (gives_expect h).bind (.of_ok rfl)
  next {n s s₁ s₂ s₃ x l t ts} hx hbegins ht hterminator hts := by
    obtain ⟨hsemicolon, hbrace, -⟩ := beginsNode_ne hbegins
    rw [Gives, nodesWithin, bind_ok (skipSemicolons_of_not_comes (hx.not_comes hsemicolon)),
      bind_ok (comes_of_not_comes (hx.not_comes hbrace))]
    exact ht.bind (Gives.after hterminator (hts.bind (.of_ok rfl)))

theorem bodyLoop_programWithin (levels : Nat) :
    BodyLoop few .eof (node (expression levels .lowest) (block levels)) (programWithin levels) id s
      s where
  closing_ends := rfl
  closing_ne := by simp
  pass hs := by
    rw [programWithin, nextNode, bind_assoc, bind_congr_left (skipSemicolons_of_comes hs)]
  done hcomes := by
    rw [ParserState.Comes, beq_iff_eq, Option.map_eq_some_iff] at hcomes
    obtain ⟨⟨token, span⟩, hx, rfl⟩ := hcomes
    have hskip : ¬ s.Comes (.symbol .semicolon) := by
      rw [ParserState.Comes, hx]
      simp
    rw [Gives, programWithin, nextNode, bind_bind_ok (skipSemicolons_of_not_comes hskip),
      bind_assoc, get_bind, hx]
    exact .inr rfl
  -- a node begins here, so the round reads it and what has to follow it
  next {n s s₁ s₂ s₃ x l t ts} hx hbegins ht hterminator hts := by
    obtain ⟨hsemicolon, -, hend⟩ := beginsNode_ne hbegins
    have hnext : nextNode levels s = (node (expression levels .lowest) (block levels) >>= fun x =>
        terminator x .eof >>= fun _ => pure (some x)) s := by
      rw [nextNode, bind_ok (skipSemicolons_of_not_comes (hx.not_comes hsemicolon)), get_bind,
        hx.lookahead_eq]
      obtain ⟨token, span⟩ := x
      cases token <;> first | rfl | exact absurd rfl hend
    have hnode : Gives few (nextNode levels) s (some t) s₃ := by
      rw [Gives, hnext]
      exact ht.bind (Gives.after hterminator (.of_ok rfl))
    rw [programWithin]
    exact hnode.bind (hts.bind (.of_ok rfl))

/-! ### Phrases -/

/-- The parser of an item. -/
def itemParser (levels : Nat) : (kind : Item) → Parse kind.Tree
  | .expression => expression levels .lowest
  | .pair => pair (expression levels .lowest)
  | .parameter => expectName

/-- The parser of a phrase reads it, where what comes after the phrase may come there. -/
def Accepted : (phrase : Phrase) → List Lexeme → phrase.Tree → Prop
  | .expression tier, l, e => ∀ {levels place s s'}, Consumes s l s' → place ≠ .call →
      place.tier.rank ≤ tier.rank → s'.precedence.rank ≤ tier.follow →
      Reaches levels l.length place s e s'
  | .item kind, l, t => ∀ {levels s s'}, Consumes s l s' → s'.precedence = .lowest →
      Gives (levels ≤ l.length) (itemParser levels kind) s t s'
  | .items kind, l, ts => ∀ {levels closing c s s'}, Closes closing →
      Consumes s (l ++ [⟨.symbol closing, c⟩]) s' →
      Gives (levels ≤ l.length) (list (itemParser levels kind) closing) s (ts, c.stop) s'
  | .furtherItems kind, l, ts => ∀ {levels n s s'}, Consumes s l s' → l.length ≤ n →
      ¬ s'.Comes (.symbol .comma) → s'.precedence = .lowest →
      Gives (levels ≤ l.length) (afterCommasWithin (itemParser levels kind) n) s ts s'
  | .block, l, b => ∀ {levels s s'}, Consumes s l s' →
      Gives (levels ≤ l.length) (block levels) s b s'
  | .body, l, ts => ∀ {few levels s s' s'' closing n} {α : Type} {run : Nat → Parse α} {result},
      (levels ≤ l.length → few) →
      BodyLoop few closing (node (expression levels .lowest) (block levels)) run result s' s'' →
      Consumes s l s' → s'.Comes closing → l.length < n → Gives few (run n) s (result ts) s''
  | .node, l, t => ∀ {levels s s'}, Consumes s l s' → Ends s' →
      Gives (levels ≤ l.length) (node (expression levels .lowest) (block levels)) s t s'
  | .conditional, l, t => ∀ {levels n s s'}, Consumes s l s' → l.length ≤ n →
      ¬ s'.Comes (.keyword .elseWord) →
      Gives (levels ≤ l.length) (conditionalWithin (expression levels .lowest) (block levels) n)
        s t s'
  | .alternative, l, b => ∀ {levels n s s'}, Consumes s l s' → l.length ≤ n →
      ¬ s'.Comes (.keyword .elseWord) →
      Gives (levels ≤ l.length) (alternativeWithin (expression levels .lowest) (block levels) n)
        s b s'

section Expressions

variable {l l' : List Lexeme} {e : Expr}

/-- An expression is read whole before anything that is no operator. -/
theorem Accepted.gives {levels : Nat} (h : Accepted (.expression .assignment) l e)
    (hl : Consumes s l s') (hnext : s'.precedence = .lowest) :
    Gives (levels ≤ l.length) (expression levels .lowest) s e s' := by
  have hrank : s'.precedence.rank ≤ 0 := by rw [hnext]; exact Nat.le_refl _
  exact (h hl (by simp) (Nat.le_refl _) hrank).gives hrank

theorem accepted_of_primary {x : Lexeme}
    (h : ∀ {levels s s'}, Consumes s (x :: l) s' →
      Gives (levels ≤ l.length) (primary (expression levels) (block levels)) s e s') :
    Accepted (.expression .primary) (x :: l) e :=
  fun hl _ _ _ => .of_primary (Nat.succ_pos _) fun _ => (h hl).imp Nat.lt_succ_of_le

/-- Literals and names. -/
theorem accepted_of_single {x : Lexeme}
    (h : ∀ {levels s}, primaryAt (expression levels) (block levels) x s = .ok e s.advance) :
    Accepted (.expression .primary) [x] e := by
  refine accepted_of_primary fun {levels s s'} hl => gives_primary hl (.of_ok ?_)
  rw [h, advance_of_consumes hl]

theorem accepted_group {o c : Span} (h : Accepted (.expression .assignment) l e) :
    Accepted (.expression .primary)
      (⟨.symbol .leftParen, o⟩ :: (l ++ [⟨.symbol .rightParen, c⟩])) e := by
  refine accepted_of_primary fun {levels s s'} hl => gives_primary hl ?_
  obtain ⟨s₁, hinner, hclose⟩ := hl.tail.split
  have hnext : s₁.precedence = .lowest := hclose.precedence_eq
  exact Gives.after (advance_apply s) (((h.gives hinner hnext).imp_le (by grind)).bind
    ((gives_expect hclose).bind (.of_ok rfl)))

theorem accepted_array {es : List Expr} {o c : Span} (h : Accepted (.items .expression) l es) :
    Accepted (.expression .primary)
      (⟨.symbol .leftBracket, o⟩ :: (l ++ [⟨.symbol .rightBracket, c⟩]))
      (.array es ⟨o.start, c.stop⟩) := by
  refine accepted_of_primary fun {levels s s'} hl => gives_primary hl ?_
  exact Gives.after (advance_apply s)
    (((h (.inr (.inl rfl)) hl.tail).imp_le (by grind)).bind (.of_ok rfl))

theorem accepted_map {ps : List (Expr × Expr)} {o c : Span} (h : Accepted (.items .pair) l ps) :
    Accepted (.expression .primary)
      (⟨.symbol .leftBrace, o⟩ :: (l ++ [⟨.symbol .rightBrace, c⟩]))
      (.map ps ⟨o.start, c.stop⟩) := by
  refine accepted_of_primary fun {levels s s'} hl => gives_primary hl ?_
  exact Gives.after (advance_apply s)
    (((h (.inr (.inr rfl)) hl.tail).imp_le (by grind)).bind (.of_ok rfl))

theorem accepted_function {ps : List Ident} {body : Block} {f o c : Span}
    (h : Accepted (.items .parameter) l ps) (h' : Accepted .block l' body) :
    Accepted (.expression .primary)
      (⟨.keyword .functionWord, f⟩ :: ⟨.symbol .leftParen, o⟩ ::
        (l ++ ⟨.symbol .rightParen, c⟩ :: l'))
      (.function ps body ⟨f.start, body.span.stop⟩) := by
  refine accepted_of_primary fun {levels s s'} hl => gives_primary hl ?_
  obtain ⟨s₂, hparameters, hbody⟩ := hl.tail.tail.split_after
  exact Gives.after (advance_apply s) ((gives_expect hl.tail.head).bind
    (((@h levels _ _ _ _ (.inl rfl) hparameters).imp_le (by grind)).bind
      (((h' hbody).imp_le (by grind)).bind (.of_ok rfl))))

theorem accepted_unary {op : UnaryOp} {o : Span} (h : Accepted (.expression .signed) l e) :
    Accepted (.expression .signed) (⟨.symbol op.symbol, o⟩ :: l)
      (.unary op e ⟨o.start, e.span.stop⟩) := by
  intro levels place s s' hl _ _ hnext
  refine .of_primary (Nat.succ_pos _) fun levels => gives_primary hl ?_
  have hoperand : Reaches levels l.length .unary s.advance e s' :=
    h hl.tail (by simp) (Nat.le_refl _) hnext
  have hunary : Gives (levels ≤ l.length) (unary (expression levels) op o.start) s.advance
      (.unary op e ⟨o.start, e.span.stop⟩) s' :=
    (hoperand.gives hnext).bind (.of_ok rfl)
  have hprimary : primaryAt (expression levels) (block levels) ⟨.symbol op.symbol, o⟩ =
      advance >>= fun _ => unary (expression levels) op o.start := by
    cases op <;> rfl
  rw [hprimary]
  exact Gives.after (advance_apply s) (hunary.imp Nat.lt_succ_of_le)

/-- A place before an operator's tier is one that the operator binds tighter than. -/
theorem lt_of_rank_tier_le {place : Precedence} {op : Operator} (hplace : place ≠ .call)
    (h : place.tier.rank ≤ op.tier.rank) : place.rank < op.precedence.rank := by
  -- no operator after an operand stands between `*` and a call
  have hne : op.precedence.rank ≠ Precedence.unary.rank := by
    rcases op with op | _ | _ | _
    · cases op <;> simp [Operator.precedence, Precedence.rank]
    all_goals simp [Operator.precedence, Precedence.rank]
  rw [op.rank_tier] at h
  cases place <;> simp only [Precedence.tier, Tier.rank, Precedence.rank] at * <;>
    first | omega | exact absurd rfl hplace

/-- An operator after an expression finds there an expression of the tier of its left side,
and reads its right side. -/
theorem accepted_wrap (op : Operator) {tier : Tier} {left : Expr} {o : Span}
    (hsymbol : Operator.ofToken? (.symbol op.symbol) = some op)
    (hleft : Accepted (.expression tier) l left) (htier : op.tier.rank ≤ tier.rank)
    (hfollow : op.precedence.rank ≤ tier.follow)
    (hright : ∀ {levels s s'}, Consumes s (⟨.symbol op.symbol, o⟩ :: l') s' →
      s'.precedence.rank ≤ op.tier.follow →
      Gives (levels ≤ l'.length) (wrap (expression levels) left op) s e s') :
    Accepted (.expression op.tier) (l ++ ⟨.symbol op.symbol, o⟩ :: l') e := by
  intro levels place s s' hl hplace hrank hnext
  obtain ⟨s₁, hl₁, hl₂⟩ := hl.split
  have hop : s₁.operator? = some op := by rw [hl₂.operator?_eq, hsymbol]
  have hprecedence : s₁.precedence = op.precedence := by rw [ParserState.precedence, hop]; rfl
  have hreaches : Reaches levels l.length place s left s₁ :=
    hleft hl₁ hplace (Nat.le_trans hrank htier) (by rw [hprecedence]; exact hfollow)
  exact hreaches.wrap hop (lt_of_rank_tier_le hplace hrank) (by grind)
    fun _ => (hright hl₂ hnext).imp (by grind)

theorem accepted_binary {op : BinaryOp} {a b : Expr} {o : Span}
    (h : Accepted (.expression (tierOf op)) l a)
    (h' : Accepted (.expression (tierOf op).next) l' b) :
    Accepted (.expression (tierOf op)) (l ++ ⟨.symbol op.symbol, o⟩ :: l')
      (.binary op a b (a.span.hull b.span)) := by
  refine accepted_wrap (.binary op) (by cases op <;> rfl) h (Nat.le_refl _)
    (by cases op <;> exact Nat.le_refl _) fun {levels s s'} hl hnext => ?_
  have hright : Reaches levels l'.length (Operator.binary op).rightPrecedence s.advance b s' := by
    have htier : (Operator.binary op).rightPrecedence.tier.rank ≤ (tierOf op).next.rank :=
      Nat.le_of_eq (congrArg Tier.rank (Operator.tier_rightPrecedence op))
    exact h' hl.tail (Operator.rightPrecedence_ne_call op) htier
      (Nat.le_trans hnext (Tier.follow_le_next _))
  exact Gives.after (advance_apply s)
    ((hright.gives (by rw [Operator.rank_rightPrecedence]; exact hnext)).bind (.of_ok rfl))

theorem accepted_assign {a b : Expr} {o : Span}
    (h : Accepted (.expression .comparison) l a) (h' : Accepted (.expression .assignment) l' b) :
    Accepted (.expression .assignment) (l ++ ⟨.symbol .assign, o⟩ :: l')
      (.assign a b (a.span.hull b.span)) := by
  refine accepted_wrap .assign rfl h (by simp [Operator.tier, Tier.rank])
    (by simp [Operator.precedence, Precedence.rank, Tier.follow, Tier.rank])
    fun {levels s s'} hl hnext => ?_
  have hright : Reaches levels l'.length .lowest s.advance b s' :=
    h' hl.tail (by simp) (Nat.le_refl _) hnext
  exact Gives.after (advance_apply s) ((hright.gives hnext).bind (.of_ok rfl))

theorem accepted_call {callee : Expr} {es : List Expr} {o c : Span}
    (h : Accepted (.expression .applied) l callee) (h' : Accepted (.items .expression) l' es) :
    Accepted (.expression .applied)
      (l ++ ⟨.symbol .leftParen, o⟩ :: (l' ++ [⟨.symbol .rightParen, c⟩]))
      (.call callee es ⟨callee.span.start, c.stop⟩) := by
  refine accepted_wrap .call rfl h (Nat.le_refl _) (Nat.le_refl _)
    fun {levels s s'} hl hnext => ?_
  exact Gives.after (advance_apply s)
    (((h' (.inl rfl) hl.tail).imp_le (by grind)).bind (.of_ok rfl))

theorem accepted_index {target key : Expr} {o c : Span}
    (h : Accepted (.expression .applied) l target)
    (h' : Accepted (.expression .assignment) l' key) :
    Accepted (.expression .applied)
      (l ++ ⟨.symbol .leftBracket, o⟩ :: (l' ++ [⟨.symbol .rightBracket, c⟩]))
      (.index target key ⟨target.span.start, c.stop⟩) := by
  refine accepted_wrap .index rfl h (Nat.le_refl _) (Nat.le_refl _)
    fun {levels s s'} hl hnext => ?_
  obtain ⟨s₁, hkey, hclose⟩ := hl.tail.split
  exact Gives.after (advance_apply s)
    (((h'.gives hkey hclose.precedence_eq).imp_le (by grind)).bind
      ((gives_expect hclose).bind (.of_ok rfl)))

theorem accepted_lift {tier : Tier} (h : Accepted (.expression tier.next) l e) :
    Accepted (.expression tier) l e := by
  intro levels place s s' hl hplace hrank hnext
  exact h hl hplace (Nat.le_trans hrank tier.rank_le_next) (Nat.le_trans hnext tier.follow_le_next)

end Expressions

/-! ### The other phrases -/

section Phrases

variable {kind : Item} {l l' l'' : List Lexeme}

theorem accepted_pairItem {k v : Expr} {o : Span} (h : Accepted (.expression .assignment) l k)
    (h' : Accepted (.expression .assignment) l' v) :
    Accepted (.item .pair) (l ++ ⟨.symbol .colon, o⟩ :: l') (k, v) := by
  intro levels s s' hl hnext
  obtain ⟨s₁, hkey, hrest⟩ := hl.split
  exact ((h.gives hkey hrest.precedence_eq).imp_le (by grind)).bind
    ((gives_expect hrest.head).bind
      (((h'.gives hrest.tail hnext).imp_le (by grind)).bind (.of_ok rfl)))

/-- Before further items no operator comes next, if none comes after them. -/
theorem precedence_of_furtherItems (hl : (Phrase.furtherItems kind).BeginsOf l)
    (h : Consumes s l s') (hnext : s'.precedence = .lowest) : s.precedence = .lowest := by
  cases l with
  | nil =>
    obtain rfl := h.eq_of_nil
    exact hnext
  | cons x l =>
    rw [h.precedence_eq, show x.token = .symbol .comma from beq_iff_eq.1 hl]
    rfl

theorem accepted_items {x : kind.Tree} {xs : List kind.Tree} (hx : (Phrase.item kind).BeginsOf l)
    (hxs : (Phrase.furtherItems kind).BeginsOf l') (h : Accepted (.item kind) l x)
    (h' : Accepted (.furtherItems kind) l' xs) : Accepted (.items kind) (l ++ l') (x :: xs) := by
  intro levels closing c s s' hcloses hl
  rw [List.append_assoc] at hl
  obtain ⟨s₁, hl₁, hrest⟩ := hl.split
  obtain ⟨s₂, hl₂, hclose⟩ := hrest.split
  have hnext := hcloses.precedence_eq hclose
  obtain ⟨y, rest, rfl, hy⟩ := hx.exists_cons rfl
  -- the list is not empty: no item begins with the closing bracket
  refine gives_list_cons (hl₁.not_comes ?_)
    ((h hl₁ (precedence_of_furtherItems hxs hl₂ hnext)).imp_le (by grind))
    ((h' hl₂ ?_ (hclose.not_comes ?_) hnext).imp_le (by grind)) hclose
  · rintro htoken
    rw [Phrase.begins, htoken, hcloses.not_begins] at hy
    cases hy
  · rw [hl₂.lexemes_eq, List.length_append]
    exact Nat.le_add_right _ _
  · rcases hcloses with rfl | rfl | rfl <;> simp

theorem accepted_furtherItems {x : kind.Tree} {xs : List kind.Tree} {o : Span}
    (hxs : (Phrase.furtherItems kind).BeginsOf l') (h : Accepted (.item kind) l x)
    (h' : Accepted (.furtherItems kind) l' xs) :
    Accepted (.furtherItems kind) (⟨.symbol .comma, o⟩ :: (l ++ l')) (x :: xs) := by
  intro levels n s s' hl hlength hcomma hnext
  obtain ⟨s₁, hl₁, hl₂⟩ := hl.tail.split
  rw [List.length_cons, List.length_append] at hlength
  obtain ⟨n, rfl⟩ : ∃ m, n = m + 1 := ⟨n - 1, by omega⟩
  exact gives_afterCommas_cons hl
    ((h hl₁ (precedence_of_furtherItems hxs hl₂ hnext)).imp_le (by grind))
    ((h' hl₂ (by omega) hcomma hnext).imp_le (by grind))

theorem accepted_binding {text : String} {e : Expr} {o i a : Span}
    (h : Accepted (.expression .assignment) l e) :
    Accepted .node (⟨.keyword .letWord, o⟩ :: ⟨.name text, i⟩ :: ⟨.symbol .assign, a⟩ :: l)
      (.binding ⟨text, i⟩ e ⟨o.start, e.span.stop⟩) := by
  intro levels s s' hl hends
  rw [Gives, node_eq_binding hl]
  exact (gives_expect hl.head).bind ((gives_expectName hl.tail.head).bind
    ((gives_expect hl.tail.tail.head).bind
      (((h.gives hl.tail.tail.tail hends.precedence_eq).imp_le (by grind)).bind (.of_ok rfl))))

theorem accepted_returningNothing {o : Span} :
    Accepted .node [⟨.keyword .returnWord, o⟩] (.returning none o) := by
  intro levels s s' hl hends
  rw [Gives, node_eq_returning hl]
  refine (gives_expect hl).bind ?_
  have hnothing : s'.lookahead?.any (endsReturn ·.token) = true := hends
  rw [Gives, get_bind, if_pos hnothing]
  exact .inr rfl

theorem accepted_returning {e : Expr} {o : Span} (hl : (Phrase.expression .assignment).BeginsOf l)
    (h : Accepted (.expression .assignment) l e) :
    Accepted .node (⟨.keyword .returnWord, o⟩ :: l)
      (.returning (some e) ⟨o.start, e.span.stop⟩) := by
  obtain ⟨x, rest, rfl, hx⟩ := hl.exists_cons rfl
  intro levels s s' hl hends
  rw [Gives, node_eq_returning hl]
  refine (gives_expect hl.head).bind ?_
  have hvalue : s.advance.lookahead?.any (endsReturn ·.token) = false := by
    rw [hl.tail.lookahead_eq]
    exact not_endsReturn_of_begins hx
  rw [Gives, get_bind, if_neg (by rw [hvalue]; simp)]
  exact ((h.gives hl.tail hends.precedence_eq).imp_le (by grind)).bind (.of_ok rfl)

theorem accepted_expressionNode {e : Expr} (hl : (Phrase.expression .assignment).BeginsOf l)
    (h : Accepted (.expression .assignment) l e) : Accepted .node l (.expression e) := by
  obtain ⟨x, rest, rfl, hx⟩ := hl.exists_cons rfl
  intro levels s s' hl hends
  rw [Gives, node_eq_expression hl hx, map_eq_pure_bind]
  exact (h.gives hl hends.precedence_eq).bind (.of_ok rfl)

/-- An `if` is read as a node, whatever it is that ends it. -/
theorem gives_conditional {levels : Nat} {n : Node}
    (hl : Phrase.conditional.BeginsOf l) (h : Accepted .conditional l n) (hs : Consumes s l s')
    (helse : ¬ s'.Comes (.keyword .elseWord)) :
    Gives (levels ≤ l.length) (node (expression levels .lowest) (block levels)) s n s' := by
  obtain ⟨⟨token, span⟩, rest, rfl, hx⟩ := hl.exists_cons rfl
  obtain rfl : token = .keyword .ifWord := beq_iff_eq.1 hx
  rw [Gives, node_eq_conditional hs, conditional, get_bind]
  refine h hs ?_ helse
  rw [hs.lexemes_eq, List.length_append]
  exact Nat.le_add_right _ _

theorem precedence_of_block (hl : Phrase.block.BeginsOf l) (h : Consumes s l s') :
    s.precedence = .lowest := by
  obtain ⟨x, rest, rfl, hx⟩ := hl.exists_cons rfl
  rw [h.precedence_eq, show x.token = .symbol .leftBrace from beq_iff_eq.1 hx]
  rfl

theorem accepted_conditional {c : Expr} {b : Block} {o : Span} (hb : Phrase.block.BeginsOf l')
    (h : Accepted (.expression .assignment) l c) (h' : Accepted .block l' b) :
    Accepted .conditional (⟨.keyword .ifWord, o⟩ :: (l ++ l'))
      (.conditional c b none ⟨o.start, b.span.stop⟩) := by
  intro levels n s s' hl hlength helse
  obtain ⟨n, rfl⟩ : ∃ m, n = m + 1 := ⟨n - 1, by rw [List.length_cons] at hlength; omega⟩
  obtain ⟨s₁, hl₁, hl₂⟩ := hl.tail.split
  exact gives_conditionalWithin hl.head
    ((h.gives hl₁ (precedence_of_block hb hl₂)).imp_le (by grind))
    ((h' hl₂).imp_le (by grind)) helse

theorem accepted_conditionalElse {c : Expr} {b a : Block} {o w : Span}
    (hb : Phrase.block.BeginsOf l')
    (h : Accepted (.expression .assignment) l c) (h' : Accepted .block l' b)
    (h'' : Accepted .alternative l'' a) :
    Accepted .conditional
      (⟨.keyword .ifWord, o⟩ :: (l ++ (l' ++ ⟨.keyword .elseWord, w⟩ :: l'')))
      (.conditional c b (some a) ⟨o.start, a.span.stop⟩) := by
  intro levels n s s' hl hlength helse
  simp only [List.length_cons, List.length_append] at hlength
  obtain ⟨n, rfl⟩ : ∃ m, n = m + 1 := ⟨n - 1, by omega⟩
  obtain ⟨s₁, hl₁, hrest⟩ := hl.tail.split
  obtain ⟨s₂, hl₂, hl₃⟩ := hrest.split
  exact gives_conditionalWithin_else hl.head
    ((h.gives hl₁ (precedence_of_block hb hl₂)).imp_le (by grind))
    ((h' hl₂).imp_le (by grind)) hl₃.comes ((h'' hl₃.tail (by omega) helse).imp_le (by grind))

theorem accepted_alternativeBlock {b : Block} (hl : Phrase.block.BeginsOf l)
    (h : Accepted .block l b) : Accepted .alternative l b := by
  obtain ⟨x, rest, rfl, hx⟩ := hl.exists_cons rfl
  intro levels n s s' hl _ _
  -- a block begins with a brace, which tells it from another `if`
  have hif : ¬ s.Comes (.keyword .ifWord) := by
    refine hl.not_comes ?_
    rw [show x.token = .symbol .leftBrace from beq_iff_eq.1 hx]
    simp
  rw [Gives, alternativeWithin, bind_ok (comes_of_not_comes hif)]
  exact h hl

theorem accepted_alternativeConditional {n : Node} (hl : Phrase.conditional.BeginsOf l)
    (h : Accepted .conditional l n) : Accepted .alternative l ⟨[n], n.span⟩ := by
  obtain ⟨⟨token, span⟩, rest, rfl, hx⟩ := hl.exists_cons rfl
  obtain rfl : token = .keyword .ifWord := beq_iff_eq.1 hx
  intro levels m s s' hl hlength helse
  exact gives_alternativeWithin hl.comes (h hl hlength helse)

theorem accepted_block {ts : List Node} {o c : Span} (h : Accepted .body l ts) :
    Accepted .block (⟨.symbol .leftBrace, o⟩ :: (l ++ [⟨.symbol .rightBrace, c⟩]))
      ⟨ts, o.start, c.stop⟩ := by
  intro levels s s' hl
  obtain ⟨s₁, hl₁, hclose⟩ := hl.tail.split
  cases levels with
  | zero => exact .inl ⟨Nat.zero_le _, tooDeep_failTooDeep s⟩
  | succ levels =>
    refine (gives_expect hl.head).bind ?_
    rw [Gives, get_bind]
    refine Gives.bind (h (by grind) (bodyLoop_nodesWithin hclose) hl₁ hclose.comes ?_) (.of_ok rfl)
    rw [hl₁.lexemes_eq, List.length_append]
    omega

theorem accepted_emptyBody : Accepted .body [] [] := by
  intro few levels s s' s'' closing n α run result hfew hloop hl hcomes hlength
  obtain rfl := hl.eq_of_nil
  obtain ⟨n, rfl⟩ : ∃ m, n = m + 1 := ⟨n - 1, by omega⟩
  exact hloop.done hcomes

theorem accepted_semicolon {ts : List Node} {o : Span} (h : Accepted .body l ts) :
    Accepted .body (⟨.symbol .semicolon, o⟩ :: l) ts := by
  intro few levels s s' s'' closing n α run result hfew hloop hl hcomes hlength
  obtain ⟨n, rfl⟩ : ∃ m, n = m + 1 := ⟨n - 1, by omega⟩
  rw [Gives, hloop.pass hl.lexemes_cons]
  exact h (by grind) hloop hl.tail hcomes (by rw [List.length_cons] at hlength; omega)

theorem accepted_lastNode {t : Node} (hl : Phrase.node.BeginsOf l) (h : Accepted .node l t) :
    Accepted .body l [t] := by
  obtain ⟨x, rest, rfl, hx⟩ := hl.exists_cons rfl
  intro few levels s s' s'' closing n α run result hfew hloop hl hcomes hlength
  rw [List.length_cons] at hlength
  -- one round for the node and one for the closing token
  obtain ⟨n, rfl⟩ : ∃ m, n = m + 2 := ⟨n - 2, by omega⟩
  exact hloop.next hl hx ((h hl (ends_of_comes hcomes hloop.closing_ends)).imp hfew)
    (terminator_of_closing hcomes hloop.closing_ne) (hloop.done hcomes)

theorem accepted_terminatedNode {t : Node} {ts : List Node} {o : Span}
    (hl : Phrase.node.BeginsOf l) (h : Accepted .node l t) (h' : Accepted .body l' ts) :
    Accepted .body (l ++ ⟨.symbol .semicolon, o⟩ :: l') (t :: ts) := by
  obtain ⟨x, rest, rfl, hx⟩ := hl.exists_cons rfl
  intro few levels s s' s'' closing n α run result hfew hloop hl hcomes hlength
  simp only [List.length_append, List.length_cons] at hlength
  obtain ⟨n, rfl⟩ : ∃ m, n = m + 1 := ⟨n - 1, by omega⟩
  obtain ⟨s₁, hl₁, hl₂⟩ := hl.split
  exact hloop.next hl₁ hx ((h hl₁ (ends_of_comes hl₂.comes rfl)).imp (by grind))
    (terminator_of_semicolon hl₂) (h' (by grind) hloop hl₂.tail hcomes (by omega))

theorem accepted_conditionalInBody {t : Node} {ts : List Node} (hl : Phrase.conditional.BeginsOf l)
    (hl' : Phrase.body.BeginsOf l') (ht : t.endsWithBlock = true)
    (h : Accepted .conditional l t) (h' : Accepted .body l' ts) :
    Accepted .body (l ++ l') (t :: ts) := by
  intro few levels s s' s'' closing n α run result hfew hloop hs hcomes hlength
  obtain ⟨x, rest, hxl, hx⟩ := hl.exists_cons rfl
  rw [List.length_append] at hlength
  have hpos : 0 < l.length := by
    rw [hxl]
    exact Nat.succ_pos _
  obtain ⟨n, rfl⟩ : ∃ m, n = m + 2 := ⟨n - 2, by omega⟩
  obtain ⟨s₁, hl₁, hl₂⟩ := hs.split
  -- neither the closing token nor the rest of the body begins with `else`
  have helse : ¬ s₁.Comes (.keyword .elseWord) := by
    cases l' with
    | nil =>
      obtain rfl := hl₂.eq_of_nil
      exact (ends_of_comes hcomes hloop.closing_ends).not_comes
    | cons y l' =>
      refine hl₂.not_comes fun hy => ?_
      rw [Phrase.BeginsOf, hy] at hl'
      cases hl'
  have hnode : Gives few (node (expression levels .lowest) (block levels)) s t s₁ :=
    (gives_conditional hl h hl₁ helse).imp (by grind)
  have hrest := h' (by grind) hloop hl₂ hcomes (show l'.length < n + 1 by omega)
  subst hxl
  have hbegins := Phrase.begins_node_of_conditional _ hx
  by_cases hsemicolon : s₁.Comes (.symbol .semicolon)
  · -- the semicolon after the `if` begins the rest of the body
    obtain ⟨o, rest', hs₁⟩ := exists_cons_of_lookahead (by simp) hsemicolon
    rw [Gives, hloop.pass hs₁] at hrest
    exact hloop.next hl₁ hbegins hnode (terminator_of_semicolon (.advance hs₁)) hrest
  · exact hloop.next hl₁ hbegins hnode (terminator_of_endsWithBlock ht hsemicolon) hrest

end Phrases

/-- **Every phrase of the grammar is read** as the tree that it stands for. -/
theorem accepted_of_derives {phrase : Phrase} {l : List Lexeme} {t : phrase.Tree}
    (h : Derives phrase l t) : Accepted phrase l t := by
  induction h with
  | name | integer | string | trueLiteral | falseLiteral => exact accepted_of_single rfl
  | group _ ih => exact accepted_group ih
  | array _ ih => exact accepted_array ih
  | map _ ih => exact accepted_map ih
  | function _ _ ih ih' => exact accepted_function ih ih'
  | call _ _ ih ih' => exact accepted_call ih ih'
  | index _ _ ih ih' => exact accepted_index ih ih'
  | unary _ ih => exact accepted_unary ih
  | binary _ _ ih ih' => exact accepted_binary ih ih'
  | assign _ _ ih ih' => exact accepted_assign ih ih'
  | lift _ ih => exact accepted_lift ih
  | expressionItem _ ih => exact ih.gives
  | pairItem _ _ ih ih' => exact accepted_pairItem ih ih'
  | parameterItem => exact fun hl _ => gives_expectName hl
  | noItems => exact fun _ hl => gives_list_nil hl
  | items h h' ih ih' => exact accepted_items h.begins h'.begins ih ih'
  | noFurtherItems =>
    intro levels n s s' hl _ hcomma _
    obtain rfl := hl.eq_of_nil
    exact gives_afterCommas_nil n hcomma
  | furtherItems _ h' ih ih' => exact accepted_furtherItems h'.begins ih ih'
  | binding _ ih => exact accepted_binding ih
  | returningNothing => exact accepted_returningNothing
  | returning h ih => exact accepted_returning h.begins ih
  | expressionNode h ih => exact accepted_expressionNode h.begins ih
  | conditionalNode h ih => exact fun hl hends => gives_conditional h.begins ih hl hends.not_comes
  | conditional _ h' ih ih' => exact accepted_conditional h'.begins ih ih'
  | conditionalElse _ h' _ ih ih' ih'' => exact accepted_conditionalElse h'.begins ih ih' ih''
  | alternativeBlock h ih => exact accepted_alternativeBlock h.begins ih
  | alternativeConditional h ih => exact accepted_alternativeConditional h.begins ih
  | emptyBody => exact accepted_emptyBody
  | semicolon _ ih => exact accepted_semicolon ih
  | lastNode h ih => exact accepted_lastNode h.begins ih
  | terminatedNode h _ ih ih' => exact accepted_terminatedNode h.begins ih ih'
  | conditionalInBody h h' ih ih' =>
    exact accepted_conditionalInBody h.begins h'.begins h.endsWithBlock ih ih'
  | block _ ih => exact accepted_block ih

end Parse

end Script
