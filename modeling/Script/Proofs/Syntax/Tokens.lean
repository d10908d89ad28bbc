import Script.Syntax.Printer

/-!
# The tokens of a syntax tree

The canonical text of a tree spells certain tokens, which are told here without their spelling: with
parentheses around every operator, commas between items and semicolons between nodes. The tree
without its spans is all that they tell.

* `Expr.tokens`, `Node.tokens`, `Block.tokens`, `Program.tokens`: the tokens of a tree;
* `Expr.erase`, `Node.erase`, `Block.erase`, `Program.erase`: a tree without its spans.
-/

namespace Script

/-! ### Tokens -/

/-- Some tokens in parentheses. -/
def parenthesized (tokens : List Token) : List Token :=
  .symbol .leftParen :: (tokens ++ [.symbol .rightParen])

/-- Items with commas between them. -/
def commaSeparated (items : List (List Token)) : List Token :=
  [.symbol .comma].intercalate items

/-- Nodes with semicolons between them. -/
def semicolonSeparated (nodes : List (List Token)) : List Token :=
  [.symbol .semicolon].intercalate nodes

mutual

/-- The tokens of an expression. -/
def Expr.tokens : Expr → List Token
  | .name ident => [.name ident.name]
  | .integer value _ => [.integer value]
  | .boolean value _ => [.keyword (if value then .trueWord else .falseWord)]
  | .string value _ => [.string value]
  | .array elements _ =>
    .symbol .leftBracket :: (commaSeparated (Expr.tokenLists elements) ++ [.symbol .rightBracket])
  | .map pairs _ =>
    .symbol .leftBrace :: (commaSeparated (Expr.pairTokenLists pairs) ++ [.symbol .rightBrace])
  | .unary op operand _ => parenthesized (.symbol op.symbol :: operand.tokens)
  | .binary op left right _ => parenthesized (left.tokens ++ .symbol op.symbol :: right.tokens)
  | .assign target value _ => parenthesized (target.tokens ++ .symbol .assign :: value.tokens)
  | .index target key _ =>
    parenthesized (target.tokens ++ .symbol .leftBracket :: (key.tokens ++ [.symbol .rightBracket]))
  | .function parameters body _ =>
    .keyword .functionWord ::
      (parenthesized (commaSeparated (parameters.map ([.name ·.name]))) ++ body.tokens)
  | .call callee arguments _ =>
    callee.tokens ++ parenthesized (commaSeparated (Expr.tokenLists arguments))
termination_by structural e => e

/-- The tokens of each of some expressions. -/
def Expr.tokenLists : List Expr → List (List Token)
  | [] => []
  | e :: rest => e.tokens :: Expr.tokenLists rest
termination_by structural es => es

/-- The tokens of each of some pairs. -/
def Expr.pairTokenLists : List (Expr × Expr) → List (List Token)
  | [] => []
  | (key, value) :: rest =>
    (key.tokens ++ .symbol .colon :: value.tokens) :: Expr.pairTokenLists rest
termination_by structural pairs => pairs

/-- The tokens of a node. -/
def Node.tokens : Node → List Token
  | .binding ident value _ =>
    .keyword .letWord :: .name ident.name :: .symbol .assign :: value.tokens
  | .returning none _ => [.keyword .returnWord]
  | .returning (some value) _ => .keyword .returnWord :: value.tokens
  | .conditional condition consequence none _ =>
    .keyword .ifWord :: (condition.tokens ++ consequence.tokens)
  | .conditional condition consequence (some alternative) _ =>
    .keyword .ifWord :: (condition.tokens ++
      (consequence.tokens ++ .keyword .elseWord :: alternative.tokens))
  | .expression value => value.tokens
termination_by structural node => node

/-- The tokens of each of some nodes. -/
def Node.tokenLists : List Node → List (List Token)
  | [] => []
  | node :: rest => node.tokens :: Node.tokenLists rest
termination_by structural nodes => nodes

/-- The tokens of a block. -/
def Block.tokens : Block → List Token
  | ⟨nodes, _⟩ =>
    .symbol .leftBrace :: (semicolonSeparated (Node.tokenLists nodes) ++ [.symbol .rightBrace])
termination_by structural block => block

end

/-- The tokens of a program. -/
def Program.tokens (program : Program) : List Token :=
  semicolonSeparated (Node.tokenLists program.nodes)

/-- What holds of a separator holds of all tokens of a list if it holds of those of each item. -/
theorem forall_mem_intercalate {P : Token → Prop} {sign : Symbol} (hsign : P (.symbol sign)) :
    ∀ {tokenLists : List (List Token)},
      (∀ token ∈ [.symbol sign].intercalate tokenLists, P token) ↔
        ∀ tokens ∈ tokenLists, ∀ token ∈ tokens, P token
  | [] => by simp
  | [tokens] => by rw [List.intercalate_singleton, List.forall_mem_singleton]
  | tokens :: tokens' :: rest => by
    rw [List.intercalate_cons_cons, List.forall_mem_append, List.forall_mem_append,
      forall_mem_intercalate hsign, List.forall_mem_singleton, List.forall_mem_cons (a := tokens)]
    constructor
    · exact fun h => ⟨h.1.1, h.2⟩
    · exact fun h => ⟨⟨h.1, hsign⟩, h.2⟩

theorem Expr.tokenLists_eq_map (es : List Expr) : Expr.tokenLists es = es.map Expr.tokens := by
  induction es with
  | nil => rfl
  | cons e rest ih => rw [tokenLists, List.map_cons, ih]

theorem Expr.pairTokenLists_eq_map (pairs : List (Expr × Expr)) : Expr.pairTokenLists pairs =
    pairs.map fun pair => pair.1.tokens ++ .symbol .colon :: pair.2.tokens := by
  induction pairs with
  | nil => rfl
  | cons pair rest ih => rw [pairTokenLists, List.map_cons, ih]

theorem Node.tokenLists_eq_map (nodes : List Node) :
    Node.tokenLists nodes = nodes.map Node.tokens := by
  induction nodes with
  | nil => rfl
  | cons node rest ih => rw [tokenLists, List.map_cons, ih]

/-! ### Trees without spans -/

/-- The span of what has none. -/
def Span.none : Span := ⟨0, 0⟩

/-- A name without its span. -/
def Ident.erase (ident : Ident) : Ident := ⟨ident.name, .none⟩

mutual

/-- An expression without its spans. -/
def Expr.erase : Expr → Expr
  | .name ident => .name ident.erase
  | .integer value _ => .integer value .none
  | .boolean value _ => .boolean value .none
  | .string value _ => .string value .none
  | .array elements _ => .array (Expr.eraseAll elements) .none
  | .map pairs _ => .map (Expr.erasePairs pairs) .none
  | .unary op operand _ => .unary op operand.erase .none
  | .binary op left right _ => .binary op left.erase right.erase .none
  | .assign target value _ => .assign target.erase value.erase .none
  | .index target key _ => .index target.erase key.erase .none
  | .function parameters body _ => .function (parameters.map Ident.erase) body.erase .none
  | .call callee arguments _ => .call callee.erase (Expr.eraseAll arguments) .none
termination_by structural e => e

/-- Expressions without their spans. -/
def Expr.eraseAll : List Expr → List Expr
  | [] => []
  | e :: rest => e.erase :: Expr.eraseAll rest
termination_by structural es => es

/-- Pairs without their spans. -/
def Expr.erasePairs : List (Expr × Expr) → List (Expr × Expr)
  | [] => []
  | (key, value) :: rest => (key.erase, value.erase) :: Expr.erasePairs rest
termination_by structural pairs => pairs

/-- A node without its spans. -/
def Node.erase : Node → Node
  | .binding ident value _ => .binding ident.erase value.erase .none
  | .returning none _ => .returning none .none
  | .returning (some value) _ => .returning (some value.erase) .none
  | .conditional condition consequence none _ =>
    .conditional condition.erase consequence.erase none .none
  | .conditional condition consequence (some alternative) _ =>
    .conditional condition.erase consequence.erase (some alternative.erase) .none
  | .expression value => .expression value.erase
termination_by structural node => node

/-- Nodes without their spans. -/
def Node.eraseAll : List Node → List Node
  | [] => []
  | node :: rest => node.erase :: Node.eraseAll rest
termination_by structural nodes => nodes

/-- A block without its spans. -/
def Block.erase : Block → Block
  | ⟨nodes, _⟩ => ⟨Node.eraseAll nodes, .none⟩
termination_by structural block => block

end

/-- A program without its spans. -/
def Program.erase (program : Program) : Program :=
  ⟨Node.eraseAll program.nodes, .none⟩

theorem Expr.eraseAll_eq_map (es : List Expr) : Expr.eraseAll es = es.map Expr.erase := by
  induction es with
  | nil => rfl
  | cons e rest ih => rw [eraseAll, List.map_cons, ih]

/-- A pair without its spans. -/
def Expr.erasePair (pair : Expr × Expr) : Expr × Expr :=
  (pair.1.erase, pair.2.erase)

theorem Expr.erasePairs_eq_map (pairs : List (Expr × Expr)) :
    Expr.erasePairs pairs = pairs.map Expr.erasePair := by
  induction pairs with
  | nil => rfl
  | cons pair rest ih => rw [erasePairs, List.map_cons, ih, erasePair]

theorem Node.eraseAll_eq_map (nodes : List Node) :
    Node.eraseAll nodes = nodes.map Node.erase := by
  induction nodes with
  | nil => rfl
  | cons node rest ih => rw [eraseAll, List.map_cons, ih]

end Script
