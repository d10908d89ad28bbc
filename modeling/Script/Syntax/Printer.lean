import Script.Syntax

/-!
# The canonical text of a syntax tree

Every operator is printed with parentheses of its own around it and its operands, so the text shows
the shape of the tree and needs no rules of precedence. Nodes are separated by a semicolon and a
space; a block is printed on one line.

* `Expr.text`, `Node.text`, `Block.text`, `Program.text`: the texts.
-/

namespace Script

/-- Texts one after another, with a separator between them. -/
def joinWith (separator : String) (texts : List String) : String :=
  separator.intercalate texts

mutual

/-- An expression as text. -/
def Expr.text : Expr → String
  | .name ident => ident.name
  | .integer value _ => value.text
  | .boolean value _ => if value then "true" else "false"
  | .string value _ => Text.quote value
  | .array elements _ => "[" ++ joinWith ", " (Expr.texts elements) ++ "]"
  | .map pairs _ => "\x7b" ++ joinWith ", " (Expr.pairTexts pairs) ++ "\x7d"
  | .unary op operand _ => "(" ++ op.symbol.text ++ operand.text ++ ")"
  | .binary op left right _ =>
    "(" ++ left.text ++ " " ++ op.symbol.text ++ " " ++ right.text ++ ")"
  | .assign target value _ => "(" ++ target.text ++ " = " ++ value.text ++ ")"
  | .index target key _ => "(" ++ target.text ++ "[" ++ key.text ++ "])"
  | .function parameters body _ =>
    "fn(" ++ joinWith ", " (parameters.map (·.name)) ++ ") " ++ body.text
  | .call callee arguments _ =>
    callee.text ++ "(" ++ joinWith ", " (Expr.texts arguments) ++ ")"
termination_by structural e => e

/-- The texts of expressions. -/
def Expr.texts : List Expr → List String
  | [] => []
  | e :: rest => e.text :: Expr.texts rest
termination_by structural es => es

/-- The texts of the pairs of a map: key, colon, value. -/
def Expr.pairTexts : List (Expr × Expr) → List String
  | [] => []
  | (key, value) :: rest => (key.text ++ ": " ++ value.text) :: Expr.pairTexts rest
termination_by structural pairs => pairs

/-- A node as text. -/
def Node.text : Node → String
  | .binding ident value _ => "let " ++ ident.name ++ " = " ++ value.text
  | .returning none _ => "return"
  | .returning (some value) _ => "return " ++ value.text
  | .conditional condition consequence none _ => "if " ++ condition.text ++ " " ++ consequence.text
  | .conditional condition consequence (some alternative) _ =>
    "if " ++ condition.text ++ " " ++ consequence.text ++ " else " ++ alternative.text
  | .expression value => value.text
termination_by structural node => node

/-- The texts of nodes. -/
def Node.texts : List Node → List String
  | [] => []
  | node :: rest => node.text :: Node.texts rest
termination_by structural nodes => nodes

/-- A block as text. -/
def Block.text : Block → String
  | ⟨[], _⟩ => "\x7b \x7d"
  | ⟨node :: rest, _⟩ => "\x7b " ++ joinWith "; " (node.text :: Node.texts rest) ++ " \x7d"
termination_by structural block => block

end

/-- A program as text. -/
def Program.text (program : Program) : String :=
  joinWith "; " (Node.texts program.nodes)

end Script
