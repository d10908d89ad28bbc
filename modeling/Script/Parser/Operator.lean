import Script.Parser.State

/-!
# Operators and their precedence

What may follow an expression and wrap it: an operator with a right operand, an assignment, a call
or an index. Each binds with a certain strength, which decides what it wraps.

* `Operator.ofToken?`: the operator that a token is.
* `Operator.precedence`, `Operator.rightPrecedence`: how tightly it binds, to the left and to the
  right.
-/

namespace Script

/-- How tightly an operator binds, the weakest first. -/
inductive Precedence where
  | lowest
  | assign
  | compare
  | sum
  | product
  | unary
  | call
deriving DecidableEq, Repr

/-- The place of a precedence in their order. -/
def Precedence.rank : Precedence → Nat
  | lowest => 0
  | assign => 1
  | compare => 2
  | sum => 3
  | product => 4
  | unary => 5
  | call => 6

/-- What may follow an expression and wrap it. -/
inductive Operator where
  | binary (op : BinaryOp)
  | assign
  | call
  | index
deriving DecidableEq, Repr

namespace Operator

/-- The operator that a token is, after an expression. -/
def ofToken? : Token → Option Operator
  | .symbol .plus => some (binary .add)
  | .symbol .minus => some (binary .subtract)
  | .symbol .asterisk => some (binary .multiply)
  | .symbol .slash => some (binary .divide)
  | .symbol .equal => some (binary .equal)
  | .symbol .notEqual => some (binary .notEqual)
  | .symbol .lessThan => some (binary .less)
  | .symbol .greaterThan => some (binary .greater)
  | .symbol .assign => some assign
  | .symbol .leftParen => some call
  | .symbol .leftBracket => some index
  | _ => none

/-- How tightly an operator binds. -/
def precedence : Operator → Precedence
  | binary .add => .sum
  | binary .subtract => .sum
  | binary .multiply => .product
  | binary .divide => .product
  | binary .equal => .compare
  | binary .notEqual => .compare
  | binary .less => .compare
  | binary .greater => .compare
  | assign => .assign
  | call => .call
  | index => .call

/-- How tightly the right operand is read: an operator between operands groups to the left, so
its right operand holds only what binds tighter; an assignment groups to the right and takes
everything. -/
def rightPrecedence : Operator → Precedence
  | assign => .lowest
  | op => op.precedence

end Operator

namespace ParserState

/-- The operator that comes next, if there is one. -/
def operator? (s : ParserState) : Option Operator :=
  s.lookahead?.bind (Operator.ofToken? ·.token)

/-- How tightly the lookahead binds as an operator; anything else binds weakest. -/
def precedence (s : ParserState) : Precedence :=
  (s.operator?.map Operator.precedence).getD .lowest

end ParserState

end Script
