import Script.Syntax

/-!
# How high a syntax tree is

The height of a tree is the greatest number of expressions and blocks on a path down to a leaf. Two
kinds of them can be counted in another way, or left out: the first operand of an operator, which is
read before the operator is seen, and the block that stands for an `else if`, which has no braces.

* `Counting`: what is counted on a path;
* `Expr.height`, `Node.height`, `Block.height`: the most that is counted on a path down from a tree;
* `Program.height`: the most that is counted on a path of a program.
-/

namespace Script

/-- An `else if` is an alternative without braces: a block of one `if` with the same span. -/
def Block.isElseIf : Block → Bool
  | ⟨[node], span⟩ => node.endsWithBlock && node.span == span
  | _ => false

/-- **What is counted on a path**, besides one for every other expression and block. -/
structure Counting where
  /-- What the first operand of an operator counts: a left side, a callee or what is indexed. -/
  operand : Nat
  /-- What the block of an `else if` counts. -/
  elseIf : Nat

/-- Every expression and every block counts one. -/
def Counting.all : Counting := ⟨1, 1⟩

/-- What an alternative counts. -/
def Counting.alternative (c : Counting) (block : Block) : Nat :=
  if block.isElseIf then c.elseIf else 1

mutual

/-- The most that is counted on a path below an expression, which is not counted itself. -/
def Expr.height (c : Counting) : Expr → Nat
  | .name _ => 0
  | .integer _ _ => 0
  | .boolean _ _ => 0
  | .string _ _ => 0
  | .array elements _ => Expr.maxHeight c elements
  | .map pairs _ => Expr.maxPairHeight c pairs
  | .unary _ operand _ => 1 + operand.height c
  | .binary _ left right _ => max (c.operand + left.height c) (1 + right.height c)
  | .assign target value _ => max (c.operand + target.height c) (1 + value.height c)
  | .index target key _ => max (c.operand + target.height c) (1 + key.height c)
  | .function _ body _ => 1 + body.height c
  | .call callee arguments _ => max (c.operand + callee.height c) (Expr.maxHeight c arguments)
termination_by structural e => e

/-- The most that is counted from one of some expressions on. -/
def Expr.maxHeight (c : Counting) : List Expr → Nat
  | [] => 0
  | e :: rest => max (1 + e.height c) (Expr.maxHeight c rest)
termination_by structural es => es

/-- The most that is counted from the key or the value of one of some pairs on. -/
def Expr.maxPairHeight (c : Counting) : List (Expr × Expr) → Nat
  | [] => 0
  | (key, value) :: rest =>
    max (max (1 + key.height c) (1 + value.height c)) (Expr.maxPairHeight c rest)
termination_by structural pairs => pairs

/-- The most that is counted on a path below a node. -/
def Node.height (c : Counting) : Node → Nat
  | .binding _ value _ => 1 + value.height c
  | .returning none _ => 0
  | .returning (some value) _ => 1 + value.height c
  | .conditional condition consequence none _ =>
    max (1 + condition.height c) (1 + consequence.height c)
  | .conditional condition consequence (some alternative) _ =>
    max (max (1 + condition.height c) (1 + consequence.height c))
      (c.alternative alternative + alternative.height c)
  | .expression value => 1 + value.height c
termination_by structural node => node

/-- The most that is counted on a path below one of some nodes. -/
def Node.maxHeight (c : Counting) : List Node → Nat
  | [] => 0
  | node :: rest => max (node.height c) (Node.maxHeight c rest)
termination_by structural nodes => nodes

/-- The most that is counted on a path below a block, which is not counted itself. -/
def Block.height (c : Counting) : Block → Nat
  | ⟨nodes, _⟩ => Node.maxHeight c nodes
termination_by structural block => block

end

/-- The most that is counted on a path of a program, from one of its nodes down to a leaf. -/
def Program.height (c : Counting) (program : Program) : Nat :=
  Node.maxHeight c program.nodes

section Bounds

variable {c : Counting} {n : Nat}

theorem Expr.maxHeight_le_iff {es : List Expr} :
    Expr.maxHeight c es ≤ n ↔ ∀ e ∈ es, 1 + e.height c ≤ n := by
  induction es with
  | nil => simp [maxHeight]
  | cons e rest ih => rw [maxHeight, Nat.max_le, ih, List.forall_mem_cons]

theorem Expr.maxPairHeight_le_iff {pairs : List (Expr × Expr)} :
    Expr.maxPairHeight c pairs ≤ n ↔
      ∀ kv ∈ pairs, 1 + kv.1.height c ≤ n ∧ 1 + kv.2.height c ≤ n := by
  induction pairs with
  | nil => simp [maxPairHeight]
  | cons kv rest ih => rw [maxPairHeight, Nat.max_le, Nat.max_le, ih, List.forall_mem_cons]

theorem Node.maxHeight_le_iff {nodes : List Node} :
    Node.maxHeight c nodes ≤ n ↔ ∀ node ∈ nodes, node.height c ≤ n := by
  induction nodes with
  | nil => simp [maxHeight]
  | cons node rest ih => rw [maxHeight, Nat.max_le, ih, List.forall_mem_cons]

end Bounds

end Script
