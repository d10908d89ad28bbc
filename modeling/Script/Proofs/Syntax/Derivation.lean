import Mathlib.Data.List.Forall2
import Script.Proofs.Parser.Tier
import Script.Proofs.Syntax.Tokens

/-!
# The tokens of a tree stand for the tree

Lexemes with the tokens of a tree are a phrase of the grammar, wherever they stand, and the phrase
stands for the same tree but for its spans.

* `Rebuilds`: some tokens stand for a tree;
* `Expr.rebuilds`, `Node.rebuilds`, `Block.rebuilds`: the tokens of trees;
* `Program.rebuilds`: the tokens of a program.
-/

namespace Script

open Grammar

variable {α β : Type}

/-- Lexemes with some tokens are a phrase that stands for a given tree, where only some of what
the tree tells is looked at. -/
def Rebuilds (phrase : Phrase) (erase : phrase.Tree → β) (tokens : List Token)
    (tree : phrase.Tree) : Prop :=
  ∀ ls : List Lexeme, ls.map (·.token) = tokens →
    ∃ tree', Derives phrase ls tree' ∧ erase tree' = erase tree

theorem exists_of_map_cons {token : Token} {tokens : List Token} {ls : List Lexeme}
    (h : ls.map (·.token) = token :: tokens) :
    ∃ span ls', ls = ⟨token, span⟩ :: ls' ∧ ls'.map (·.token) = tokens := by
  obtain ⟨⟨_, span⟩, ls', rfl, rfl, htokens⟩ := List.map_eq_cons_iff.1 h
  exact ⟨span, ls', rfl, htokens⟩

theorem exists_of_map_append {tokens tokens' : List Token} {ls : List Lexeme}
    (h : ls.map (·.token) = tokens ++ tokens') :
    ∃ l l', ls = l ++ l' ∧ l.map (·.token) = tokens ∧ l'.map (·.token) = tokens' :=
  List.map_eq_append_iff.1 h

theorem exists_of_map_concat {token : Token} {tokens : List Token} {ls : List Lexeme}
    (h : ls.map (·.token) = tokens ++ [token]) :
    ∃ l span, ls = l ++ [⟨token, span⟩] ∧ l.map (·.token) = tokens := by
  obtain ⟨l, l', rfl, hl, hl'⟩ := exists_of_map_append h
  obtain ⟨span, l'', rfl, hl''⟩ := exists_of_map_cons hl'
  obtain rfl := List.map_eq_nil_iff.1 hl''
  exact ⟨l, span, rfl, hl⟩

/-! ### Lists -/

section Lists

variable {kind : Item} {erase : kind.Tree → β}

theorem rebuilds_furtherItems {tokenLists : List (List Token)} {xs : List kind.Tree}
    (h : List.Forall₂ (Rebuilds (.item kind) erase) tokenLists xs) :
    Rebuilds (.furtherItems kind) (List.map erase)
      (tokenLists.flatMap (.symbol .comma :: ·)) xs := by
  induction h with
  | nil =>
    intro ls hls
    obtain rfl := List.map_eq_nil_iff.1 hls
    exact ⟨[], .noFurtherItems, rfl⟩
  | cons hx _ ih =>
    intro ls hls
    rw [List.flatMap_cons, List.cons_append] at hls
    obtain ⟨span, tail, rfl, htail⟩ := exists_of_map_cons hls
    obtain ⟨l, l', rfl, hl, hl'⟩ := exists_of_map_append htail
    obtain ⟨x', hx', hxerase⟩ := hx l hl
    obtain ⟨xs', hxs', hxserase⟩ := ih l' hl'
    refine ⟨x' :: xs', .furtherItems hx' hxs', ?_⟩
    exact List.cons_eq_cons.2 ⟨hxerase, hxserase⟩

theorem commaSeparated_cons (tokens : List Token) : ∀ tokenLists : List (List Token),
    commaSeparated (tokens :: tokenLists) = tokens ++ tokenLists.flatMap (.symbol .comma :: ·)
  | [] => by
    rw [commaSeparated, List.intercalate_singleton]
    exact (List.append_nil tokens).symm
  | tokens' :: rest => by
    rw [List.flatMap_cons, List.cons_append, ← commaSeparated_cons tokens' rest, commaSeparated,
      List.intercalate_cons_cons, List.append_assoc]
    rfl

/-- Items with commas between them are a list. -/
theorem rebuilds_items {tokenLists : List (List Token)} {xs : List kind.Tree}
    (h : List.Forall₂ (Rebuilds (.item kind) erase) tokenLists xs) :
    Rebuilds (.items kind) (List.map erase) (commaSeparated tokenLists) xs := by
  cases h with
  | nil =>
    intro ls hls
    obtain rfl := List.map_eq_nil_iff.1 hls
    exact ⟨[], .noItems, rfl⟩
  | @cons tokens x tokenLists xs hx hxs =>
    intro ls hls
    rw [commaSeparated_cons] at hls
    obtain ⟨l, l', rfl, hl, hl'⟩ := exists_of_map_append hls
    obtain ⟨x', hx', hxerase⟩ := hx l hl
    obtain ⟨xs', hxs', hxserase⟩ := rebuilds_furtherItems hxs l' hl'
    refine ⟨x' :: xs', .items hx' hxs', ?_⟩
    exact List.cons_eq_cons.2 ⟨hxerase, hxserase⟩

end Lists

/-- Nodes with semicolons between them are a body. -/
theorem rebuilds_body {tokenLists : List (List Token)} {nodes : List Node}
    (h : List.Forall₂ (Rebuilds .node Node.erase) tokenLists nodes) :
    Rebuilds .body (List.map Node.erase) (semicolonSeparated tokenLists) nodes := by
  induction h with
  | nil =>
    intro ls hls
    obtain rfl := List.map_eq_nil_iff.1 hls
    exact ⟨[], .emptyBody, rfl⟩
  | @cons tokens node tokenLists nodes hnode hnodes ih =>
    intro ls hls
    -- The last node has no semicolon behind it, so it is told from the others.
    cases hnodes with
    | nil =>
      rw [semicolonSeparated, List.intercalate_singleton] at hls
      obtain ⟨node', hnode', herase⟩ := hnode ls hls
      refine ⟨[node'], .lastNode hnode', ?_⟩
      exact List.cons_eq_cons.2 ⟨herase, rfl⟩
    | @cons tokens' node' tokenLists nodes hnode' hnodes =>
      rw [semicolonSeparated, List.intercalate_cons_cons, List.append_assoc] at hls
      obtain ⟨l, tail, rfl, hl, htail⟩ := exists_of_map_append hls
      obtain ⟨span, l', rfl, hl'⟩ := exists_of_map_cons htail
      obtain ⟨node'', hnode'', herase⟩ := hnode l hl
      obtain ⟨rest, hrest, hrerase⟩ := ih l' hl'
      refine ⟨node'' :: rest, .terminatedNode hnode'' hrest, ?_⟩
      exact List.cons_eq_cons.2 ⟨herase, hrerase⟩

/-! ### Trees -/

/-- The tokens of an expression are one that any call or index may follow. -/
abbrev RebuildsExpr (tokens : List Token) (e : Expr) : Prop :=
  Rebuilds (.expression .applied) Expr.erase tokens e

/-- Where an expression stands alone, it may be of any tier. -/
theorem RebuildsExpr.whole {tokens : List Token} {e : Expr} (h : RebuildsExpr tokens e) :
    Rebuilds (.expression .assignment) Expr.erase tokens e := by
  intro ls hls
  obtain ⟨e', he', herase⟩ := h ls hls
  exact ⟨e', he'.weaken (by simp [Tier.rank]), herase⟩

/-- An expression of any tier may stand in parentheses. -/
theorem rebuilds_parenthesized (tier : Tier) {tokens : List Token} {e : Expr}
    (h : Rebuilds (.expression tier) Expr.erase tokens e) :
    RebuildsExpr (parenthesized tokens) e := by
  intro ls hls
  obtain ⟨o, tail, rfl, htail⟩ := exists_of_map_cons hls
  obtain ⟨l, c, rfl, hl⟩ := exists_of_map_concat htail
  obtain ⟨e', he', herase⟩ := h l hl
  exact ⟨e', .lift (.group (he'.weaken (by cases tier <;> simp [Tier.rank]))), herase⟩

/-- Primary expressions of one lexeme. -/
theorem rebuilds_single {token : Token} {e : Expr} (make : Span → Expr)
    (h : ∀ span, Derives (.expression .primary) [⟨token, span⟩] (make span))
    (herase : ∀ span, (make span).erase = e.erase) : RebuildsExpr [token] e := by
  intro ls hls
  obtain ⟨span, tail, rfl, htail⟩ := exists_of_map_cons hls
  obtain rfl := List.map_eq_nil_iff.1 htail
  exact ⟨make span, .lift (h span), herase span⟩

theorem rebuilds_parameters : ∀ parameters : List Ident,
    List.Forall₂ (Rebuilds (.item .parameter) Ident.erase) (parameters.map ([.name ·.name]))
      parameters
  | [] => .nil
  | ident :: rest => by
    refine .cons (fun ls hls => ?_) (rebuilds_parameters rest)
    obtain ⟨span, tail, rfl, htail⟩ := exists_of_map_cons hls
    obtain rfl := List.map_eq_nil_iff.1 htail
    exact ⟨⟨ident.name, span⟩, .parameterItem, rfl⟩

theorem rebuilds_binary {tokens tokens' : List Token} {left right : Expr} (op : BinaryOp)
    (span : Span) (h : RebuildsExpr tokens left) (h' : RebuildsExpr tokens' right) :
    Rebuilds (.expression (tierOf op)) Expr.erase (tokens ++ .symbol op.symbol :: tokens')
      (.binary op left right span) := by
  intro ls hls
  obtain ⟨l, tail, rfl, hl, htail⟩ := exists_of_map_append hls
  obtain ⟨s, l', rfl, hl'⟩ := exists_of_map_cons htail
  obtain ⟨a, ha, haerase⟩ := h l hl
  obtain ⟨b, hb, hberase⟩ := h' l' hl'
  -- every operand is a name, a literal or in brackets, and so fits beside any operator
  refine ⟨_, .binary (ha.weaken (by cases op <;> simp [tierOf, Tier.rank]))
    (hb.weaken (by cases op <;> simp [tierOf, Tier.next, Tier.rank])), ?_⟩
  rw [Expr.erase, haerase, hberase]
  rfl

theorem rebuilds_unary {tokens : List Token} {operand : Expr} (op : UnaryOp) (span : Span)
    (h : RebuildsExpr tokens operand) :
    Rebuilds (.expression .signed) Expr.erase (.symbol op.symbol :: tokens)
      (.unary op operand span) := by
  intro ls hls
  obtain ⟨s, tail, rfl, htail⟩ := exists_of_map_cons hls
  obtain ⟨e, he, herase⟩ := h tail htail
  refine ⟨_, .unary (he.weaken (by simp [Tier.rank])), ?_⟩
  rw [Expr.erase, herase]
  rfl

theorem rebuilds_expressionItem {tokens : List Token} {e : Expr}
    (h : Rebuilds (.expression .assignment) Expr.erase tokens e) :
    Rebuilds (.item .expression) Expr.erase tokens e := by
  intro ls hls
  obtain ⟨e', he', herase⟩ := h ls hls
  exact ⟨e', .expressionItem he', herase⟩

theorem rebuilds_pairItem {tokens tokens' : List Token} {key value : Expr}
    (h : Rebuilds (.expression .assignment) Expr.erase tokens key)
    (h' : Rebuilds (.expression .assignment) Expr.erase tokens' value) :
    Rebuilds (.item .pair) Expr.erasePair (tokens ++ .symbol .colon :: tokens') (key, value) := by
  intro ls hls
  obtain ⟨l, tail, rfl, hl, htail⟩ := exists_of_map_append hls
  obtain ⟨s, l', rfl, hl'⟩ := exists_of_map_cons htail
  obtain ⟨a, ha, haerase⟩ := h l hl
  obtain ⟨b, hb, hberase⟩ := h' l' hl'
  exact ⟨(a, b), .pairItem ha hb, Prod.ext haerase hberase⟩

theorem rebuilds_array {tokenLists : List (List Token)} {elements : List Expr} (span : Span)
    (h : List.Forall₂ (Rebuilds (.item .expression) Expr.erase) tokenLists elements) :
    RebuildsExpr
      (.symbol .leftBracket :: (commaSeparated tokenLists ++ [.symbol .rightBracket]))
      (.array elements span) := by
  intro ls hls
  obtain ⟨o, tail, rfl, htail⟩ := exists_of_map_cons hls
  obtain ⟨l, c, rfl, hl⟩ := exists_of_map_concat htail
  obtain ⟨es, hes, herase⟩ := rebuilds_items h l hl
  refine ⟨_, .lift (.array hes), ?_⟩
  rw [Expr.erase, Expr.eraseAll_eq_map, herase, ← Expr.eraseAll_eq_map]
  rfl

theorem rebuilds_map {tokenLists : List (List Token)} {pairs : List (Expr × Expr)} (span : Span)
    (h : List.Forall₂ (Rebuilds (.item .pair) Expr.erasePair) tokenLists pairs) :
    RebuildsExpr (.symbol .leftBrace :: (commaSeparated tokenLists ++ [.symbol .rightBrace]))
      (.map pairs span) := by
  intro ls hls
  obtain ⟨o, tail, rfl, htail⟩ := exists_of_map_cons hls
  obtain ⟨l, c, rfl, hl⟩ := exists_of_map_concat htail
  obtain ⟨ps, hps, herase⟩ := rebuilds_items h l hl
  refine ⟨_, .lift (.map hps), ?_⟩
  rw [Expr.erase, Expr.erasePairs_eq_map, herase, ← Expr.erasePairs_eq_map]
  rfl

mutual

/-- **The tokens of an expression stand for it.** -/
theorem Expr.rebuilds : ∀ e : Expr, RebuildsExpr e.tokens e
  | .name ident => rebuilds_single (fun span => .name ⟨ident.name, span⟩) (fun _ => .name)
    fun _ => rfl
  | .integer value _ => rebuilds_single (.integer value) (fun _ => .integer) fun _ => rfl
  | .boolean true _ => rebuilds_single (.boolean true) (fun _ => .trueLiteral) fun _ => rfl
  | .boolean false _ => rebuilds_single (.boolean false) (fun _ => .falseLiteral) fun _ => rfl
  | .string value _ => rebuilds_single (.string value) (fun _ => .string) fun _ => rfl
  | .array elements span => rebuilds_array span (Expr.rebuilds_all elements)
  | .map pairs span => rebuilds_map span (Expr.rebuilds_pairs pairs)
  | .unary op operand span =>
    rebuilds_parenthesized .signed (rebuilds_unary op span operand.rebuilds)
  | .binary op left right span =>
    rebuilds_parenthesized (tierOf op) (rebuilds_binary op span left.rebuilds right.rebuilds)
  -- The target is printed as one that a call may follow, which is more than an assignment asks for.
  | .assign target value _ => by
    refine rebuilds_parenthesized .assignment fun ls hls => ?_
    obtain ⟨l, tail, rfl, hl, htail⟩ := exists_of_map_append hls
    obtain ⟨s, l', rfl, hl'⟩ := exists_of_map_cons htail
    obtain ⟨a, ha, haerase⟩ := target.rebuilds l hl
    obtain ⟨b, hb, hberase⟩ := value.rebuilds.whole l' hl'
    refine ⟨_, .assign (ha.weaken (by simp [Tier.rank])) hb, ?_⟩
    rw [Expr.erase, haerase, hberase]
    rfl
  | .index target key _ => by
    refine rebuilds_parenthesized .applied fun ls hls => ?_
    obtain ⟨l, tail, rfl, hl, htail⟩ := exists_of_map_append hls
    obtain ⟨o, tail', rfl, htail'⟩ := exists_of_map_cons htail
    obtain ⟨l', c, rfl, hl'⟩ := exists_of_map_concat htail'
    obtain ⟨a, ha, haerase⟩ := target.rebuilds l hl
    obtain ⟨b, hb, hberase⟩ := key.rebuilds.whole l' hl'
    refine ⟨_, .index ha hb, ?_⟩
    rw [Expr.erase, haerase, hberase]
    rfl
  -- A function is not in parentheses of its own: its tokens are taken apart one by one.
  | .function parameters body _ => by
    intro ls hls
    rw [Expr.tokens, parenthesized, List.cons_append, List.append_assoc] at hls
    obtain ⟨f, tail, rfl, htail⟩ := exists_of_map_cons hls
    obtain ⟨o, tail', rfl, htail'⟩ := exists_of_map_cons htail
    obtain ⟨l, tail'', rfl, hl, htail''⟩ := exists_of_map_append htail'
    obtain ⟨c, l', rfl, hl'⟩ := exists_of_map_cons htail''
    obtain ⟨ps, hps, herase⟩ := rebuilds_items (rebuilds_parameters parameters) l hl
    obtain ⟨b, hb, hberase⟩ := body.rebuilds l' hl'
    refine ⟨_, .lift (.function hps hb), ?_⟩
    rw [Expr.erase, herase, hberase]
    rfl
  | .call callee arguments _ => by
    intro ls hls
    rw [Expr.tokens, parenthesized] at hls
    obtain ⟨l, tail, rfl, hl, htail⟩ := exists_of_map_append hls
    obtain ⟨o, tail', rfl, htail'⟩ := exists_of_map_cons htail
    obtain ⟨l', c, rfl, hl'⟩ := exists_of_map_concat htail'
    obtain ⟨a, ha, haerase⟩ := callee.rebuilds l hl
    obtain ⟨es, hes, herase⟩ := rebuilds_items (Expr.rebuilds_all arguments) l' hl'
    refine ⟨_, .call ha hes, ?_⟩
    rw [Expr.erase, Expr.eraseAll_eq_map, haerase, herase, ← Expr.eraseAll_eq_map]
    rfl
termination_by structural e => e

theorem Expr.rebuilds_all : ∀ es : List Expr,
    List.Forall₂ (Rebuilds (.item .expression) Expr.erase) (Expr.tokenLists es) es
  | [] => .nil
  | e :: rest => .cons (rebuilds_expressionItem e.rebuilds.whole) (Expr.rebuilds_all rest)
termination_by structural es => es

theorem Expr.rebuilds_pairs : ∀ pairs : List (Expr × Expr),
    List.Forall₂ (Rebuilds (.item .pair) Expr.erasePair) (Expr.pairTokenLists pairs) pairs
  | [] => .nil
  | (key, value) :: rest =>
    .cons (rebuilds_pairItem key.rebuilds.whole value.rebuilds.whole) (Expr.rebuilds_pairs rest)
termination_by structural pairs => pairs

/-- **The tokens of a node stand for it.** -/
theorem Node.rebuilds : ∀ node : Node, Rebuilds .node Node.erase node.tokens node
  | .binding ident value _ => by
    intro ls hls
    rw [Node.tokens] at hls
    obtain ⟨o, tail, rfl, htail⟩ := exists_of_map_cons hls
    obtain ⟨i, tail', rfl, htail'⟩ := exists_of_map_cons htail
    obtain ⟨a, l, rfl, hl⟩ := exists_of_map_cons htail'
    obtain ⟨e, he, herase⟩ := value.rebuilds.whole l hl
    refine ⟨_, .binding he, ?_⟩
    rw [Node.erase, herase]
    rfl
  | .returning none _ => by
    intro ls hls
    rw [Node.tokens] at hls
    obtain ⟨o, tail, rfl, htail⟩ := exists_of_map_cons hls
    obtain rfl := List.map_eq_nil_iff.1 htail
    exact ⟨_, .returningNothing, rfl⟩
  | .returning (some value) _ => by
    intro ls hls
    rw [Node.tokens] at hls
    obtain ⟨o, l, rfl, hl⟩ := exists_of_map_cons hls
    obtain ⟨e, he, herase⟩ := value.rebuilds.whole l hl
    refine ⟨_, .returning he, ?_⟩
    rw [Node.erase, herase]
    rfl
  | .conditional condition consequence none _ => by
    intro ls hls
    rw [Node.tokens] at hls
    obtain ⟨o, tail, rfl, htail⟩ := exists_of_map_cons hls
    obtain ⟨l, l', rfl, hl, hl'⟩ := exists_of_map_append htail
    obtain ⟨c, hc, hcerase⟩ := condition.rebuilds.whole l hl
    obtain ⟨b, hb, hberase⟩ := consequence.rebuilds l' hl'
    refine ⟨_, .conditionalNode (.conditional hc hb), ?_⟩
    rw [Node.erase, hcerase, hberase]
    rfl
  | .conditional condition consequence (some alternative) _ => by
    intro ls hls
    rw [Node.tokens] at hls
    obtain ⟨o, tail, rfl, htail⟩ := exists_of_map_cons hls
    obtain ⟨l, tail', rfl, hl, htail'⟩ := exists_of_map_append htail
    obtain ⟨l', tail'', rfl, hl', htail''⟩ := exists_of_map_append htail'
    obtain ⟨w, l'', rfl, hl''⟩ := exists_of_map_cons htail''
    obtain ⟨c, hc, hcerase⟩ := condition.rebuilds.whole l hl
    obtain ⟨b, hb, hberase⟩ := consequence.rebuilds l' hl'
    obtain ⟨a, ha, haerase⟩ := alternative.rebuilds l'' hl''
    -- an `else if` is written as a block that holds the `if`
    refine ⟨_, .conditionalNode (.conditionalElse hc hb (.alternativeBlock ha)), ?_⟩
    rw [Node.erase, hcerase, hberase, haerase]
    rfl
  | .expression value => by
    intro ls hls
    obtain ⟨e, he, herase⟩ := value.rebuilds.whole ls hls
    refine ⟨_, .expressionNode he, ?_⟩
    rw [Node.erase, herase]
    rfl
termination_by structural node => node

theorem Node.rebuilds_all : ∀ nodes : List Node,
    List.Forall₂ (Rebuilds .node Node.erase) (Node.tokenLists nodes) nodes
  | [] => .nil
  | node :: rest => .cons node.rebuilds (Node.rebuilds_all rest)
termination_by structural nodes => nodes

/-- **The tokens of a block stand for it.** -/
theorem Block.rebuilds : ∀ block : Block, Rebuilds .block Block.erase block.tokens block
  | ⟨nodes, _⟩ => by
    intro ls hls
    rw [Block.tokens] at hls
    obtain ⟨o, tail, rfl, htail⟩ := exists_of_map_cons hls
    obtain ⟨l, c, rfl, hl⟩ := exists_of_map_concat htail
    obtain ⟨ns, hns, herase⟩ := rebuilds_body (Node.rebuilds_all nodes) l hl
    refine ⟨_, .block hns, ?_⟩
    rw [Block.erase, Node.eraseAll_eq_map, herase, ← Node.eraseAll_eq_map]
    rfl
termination_by structural block => block

end

/-- **The tokens of a program stand for it.** -/
theorem Program.rebuilds (program : Program) :
    Rebuilds .body Node.eraseAll program.tokens program.nodes := by
  intro ls hls
  obtain ⟨ns, hns, herase⟩ := rebuilds_body (Node.rebuilds_all program.nodes) ls hls
  refine ⟨ns, hns, ?_⟩
  rw [Node.eraseAll_eq_map, herase, Node.eraseAll_eq_map]

end Script
