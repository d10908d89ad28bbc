import Script.Span
import Script.Token

/-!
# Syntax trees

A program is a list of nodes. A node is a `let`, a `return`, an `if` or an expression; a block is a
list of nodes between braces. Every tree carries the span of the text that it was read from.
Parentheses leave no trace in a tree, and an `else if` is an alternative of one node.

* `Expr`, `Node`, `Block`, `Program`: the trees.
* `Expr.span`, `Node.span`: where a tree was read.
-/

namespace Script

/-! ### Operators -/

/-- An operator in front of its operand. -/
inductive UnaryOp where
  | plus
  | minus
  | not
deriving DecidableEq, Repr

/-- The symbol of an operator in front of its operand. -/
def UnaryOp.symbol : UnaryOp → Symbol
  | plus => .plus
  | minus => .minus
  | not => .bang

/-- An operator between its operands. -/
inductive BinaryOp where
  | add
  | subtract
  | multiply
  | divide
  | equal
  | notEqual
  | less
  | greater
deriving DecidableEq, Repr

/-- The symbol of an operator between its operands. -/
def BinaryOp.symbol : BinaryOp → Symbol
  | add => .plus
  | subtract => .minus
  | multiply => .asterisk
  | divide => .slash
  | equal => .equal
  | notEqual => .notEqual
  | less => .lessThan
  | greater => .greaterThan

/-! ### Trees -/

/-- A name and where it stands. -/
structure Ident where
  name : String
  span : Span
deriving DecidableEq, Repr

mutual

/-- An expression. -/
inductive Expr where
  | name (ident : Ident)
  | integer (value : Integer) (span : Span)
  | boolean (value : Bool) (span : Span)
  | string (value : String) (span : Span)
  | array (elements : List Expr) (span : Span)
  | map (pairs : List (Expr × Expr)) (span : Span)
  | unary (op : UnaryOp) (operand : Expr) (span : Span)
  | binary (op : BinaryOp) (left right : Expr) (span : Span)
  | assign (target value : Expr) (span : Span)
  | index (target key : Expr) (span : Span)
  | function (parameters : List Ident) (body : Block) (span : Span)
  | call (callee : Expr) (arguments : List Expr) (span : Span)

/-- A node: what may stand in a program or a block. -/
inductive Node where
  | binding (ident : Ident) (value : Expr) (span : Span)
  | returning (value : Option Expr) (span : Span)
  | conditional (condition : Expr) (consequence : Block) (alternative : Option Block) (span : Span)
  | expression (value : Expr)

/-- The nodes between two braces, which the span includes. -/
structure Block where
  nodes : List Node
  span : Span

end

/-- A whole script. Its span reaches from its first lexeme to the end of its last. -/
structure Program where
  nodes : List Node
  span : Span

/-- Where an expression was read. -/
def Expr.span : Expr → Span
  | name ident => ident.span
  | integer _ span => span
  | boolean _ span => span
  | string _ span => span
  | array _ span => span
  | map _ span => span
  | unary _ _ span => span
  | binary _ _ _ span => span
  | assign _ _ span => span
  | index _ _ span => span
  | function _ _ span => span
  | call _ _ span => span

namespace Node

/-- Where a node was read. -/
def span : Node → Span
  | binding _ _ span => span
  | returning _ span => span
  | conditional _ _ _ span => span
  | expression value => value.span

/-- A node that ends with a block of its own needs no semicolon after it. -/
def endsWithBlock : Node → Bool
  | conditional .. => true
  | _ => false

end Node

end Script
