import Script.Parser.Operator

/-!
# Reading syntax trees

Expressions are read by precedence: a primary expression is taken first, and then every operator
that binds tighter than the place asks for wraps what has been read so far. Nesting is bounded: each
expression, each block, and each operator within one expression uses up a level for as long as the
expression or block around it is being read. The number of levels still allowed is an argument of
the parsers, on which they recurse.

* `Parse.expression`, `Parse.block`: expressions and blocks within a number of levels.
* `Parse.nextNode`, `Parse.program`: one node at a time, or all of them.
* `Program.parse`: a whole text.
-/

namespace Script

namespace Parse

/-! ### Pieces of expressions

The parsers of this section are given the parsers of the expressions and blocks inside. -/

/-- One pair of a map: key, colon, value. -/
def pair (expression : Parse Expr) : Parse (Expr × Expr) := do
  let key ← expression
  let _ ← expect (.symbol .colon)
  let value ← expression
  return (key, value)

/-- A function after its keyword, which stands at `start`. -/
def function (block : Parse Block) (start : UInt32) : Parse Expr := do
  let _ ← expect (.symbol .leftParen)
  let (parameters, _) ← list expectName .rightParen
  let body ← block
  return .function parameters body ⟨start, body.span.stop⟩

/-- An operator in front of its operand. -/
def unary (expression : Precedence → Parse Expr) (op : UnaryOp) (start : UInt32) : Parse Expr := do
  let operand ← expression .unary
  return .unary op operand ⟨start, operand.span.stop⟩

/-- An expression that begins with a given lexeme and is not wrapped by any operator after it.
The lexeme is not taken yet. -/
def primaryAt (expression : Precedence → Parse Expr) (block : Parse Block) (lexeme : Lexeme) :
    Parse Expr :=
  let span := lexeme.span
  match lexeme.token with
  | .name text => do
    advance
    return .name ⟨text, span⟩
  | .integer value => do
    advance
    return .integer value span
  | .string value => do
    advance
    return .string value span
  | .keyword .trueWord => do
    advance
    return .boolean true span
  | .keyword .falseWord => do
    advance
    return .boolean false span
  | .symbol .leftParen => do
    advance
    let inner ← expression .lowest
    let _ ← expect (.symbol .rightParen)
    return inner
  | .symbol .leftBracket => do
    advance
    let (elements, stop) ← list (expression .lowest) .rightBracket
    return .array elements ⟨span.start, stop⟩
  | .symbol .leftBrace => do
    advance
    let (pairs, stop) ← list (pair (expression .lowest)) .rightBrace
    return .map pairs ⟨span.start, stop⟩
  | .keyword .functionWord => do
    advance
    function block span.start
  | .symbol .plus => do
    advance
    unary expression .plus span.start
  | .symbol .minus => do
    advance
    unary expression .minus span.start
  | .symbol .bang => do
    advance
    unary expression .not span.start
  | token => throw ⟨.expectedExpression token, span⟩

/-- An expression that no operator after it wraps. -/
def primary (expression : Precedence → Parse Expr) (block : Parse Block) : Parse Expr := do
  match (← get).lexemes with
  | [] => failAtEnd
  | lexeme :: _ => primaryAt expression block lexeme

/-- An expression wrapped by the operator after it. -/
def wrap (expression : Precedence → Parse Expr) (left : Expr) (op : Operator) : Parse Expr := do
  advance
  match op with
  | .call =>
    let (arguments, stop) ← list (expression .lowest) .rightParen
    return .call left arguments ⟨left.span.start, stop⟩
  | .index =>
    let key ← expression .lowest
    let close ← expect (.symbol .rightBracket)
    return .index left key ⟨left.span.start, close.stop⟩
  | .assign =>
    let value ← expression op.rightPrecedence
    return .assign left value (left.span.hull value.span)
  | .binary op' =>
    let right ← expression op.rightPrecedence
    return .binary op' left right (left.span.hull right.span)

/-! ### Pieces of nodes -/

/-- A `let`. -/
def binding (expression : Parse Expr) : Parse Node := do
  let opening ← expect (.keyword .letWord)
  let ident ← expectName
  let _ ← expect (.symbol .assign)
  let value ← expression
  return .binding ident value ⟨opening.start, value.span.stop⟩

/-- The tokens before which a `return` has no value. -/
def endsReturn : Token → Bool
  | .symbol .semicolon => true
  | .symbol .rightBrace => true
  | .eof => true
  | _ => false

/-- A `return`, with or without a value. -/
def returning (expression : Parse Expr) : Parse Node := do
  let opening ← expect (.keyword .returnWord)
  if (← get).lookahead?.any (endsReturn ·.token) then
    return .returning none opening
  else
    let value ← expression
    return .returning (some value) ⟨opening.start, value.span.stop⟩

/-- An `if` with at most `n` further ones that follow it after `else`. -/
def conditionalWithin (expression : Parse Expr) (block : Parse Block) : Nat → Parse Node
  | 0 => failAtEnd
  | n + 1 => do
    let opening ← expect (.keyword .ifWord)
    let condition ← expression
    let consequence ← block
    if ← comes (.keyword .elseWord) then
      advance
      let alternative : Block ←
        if ← comes (.keyword .ifWord) then
          let inner ← conditionalWithin expression block n
          pure ⟨[inner], inner.span⟩
        else
          block
      return .conditional condition consequence (some alternative)
        ⟨opening.start, alternative.span.stop⟩
    else
      return .conditional condition consequence none ⟨opening.start, consequence.span.stop⟩

/-- An `if` with all that follow it after `else`. Each begins with a lexeme of its own, which
bounds their number. -/
def conditional (expression : Parse Expr) (block : Parse Block) : Parse Node := do
  conditionalWithin expression block (← get).lexemes.length

/-- A node. -/
def node (expression : Parse Expr) (block : Parse Block) : Parse Node := do
  match (← get).lookahead? with
  | some ⟨.keyword .letWord, _⟩ => binding expression
  | some ⟨.keyword .returnWord, _⟩ => returning expression
  | some ⟨.keyword .ifWord, _⟩ => conditional expression block
  | some _ => .expression <$> expression
  | none => failAtEnd

/-- What has to follow a node: a semicolon, which is taken, or the closing token of the place,
which is left. After a node that ends with a block, nothing has to. -/
def terminator (node : Node) (closing : Token) : Parse Unit := do
  match (← get).lookahead? with
  | some ⟨token, _⟩ =>
    if token = .symbol .semicolon then
      advance
    else if token = closing || node.endsWithBlock then
      pure ()
    else if token = .eof then
      failAtEnd
    else
      throw ⟨.missingSemicolon, .point (← get).lastStop⟩
  | none => if node.endsWithBlock then pure () else failAtEnd

/-- At most `n` nodes up to the closing brace, which is taken and whose end is given too. -/
def nodesWithin (node : Parse Node) : Nat → Parse (List Node × UInt32)
  | 0 => failAtEnd
  | n + 1 => do
    skipSemicolons
    if ← comes (.symbol .rightBrace) then
      let close ← expect (.symbol .rightBrace)
      return ([], close.stop)
    else
      let x ← node
      terminator x (.symbol .rightBrace)
      let (xs, stop) ← nodesWithin node n
      return (x :: xs, stop)

/-- The nodes between two braces. Each takes a lexeme, which bounds their number. -/
def braced (node : Parse Node) : Parse Block := do
  let opening ← expect (.symbol .leftBrace)
  let (nodes, stop) ← nodesWithin node ((← get).lexemes.length + 1)
  return ⟨nodes, opening.start, stop⟩

/-! ### Expressions and blocks -/

mutual

/-- An expression within a number of levels, up to the first operator that binds no tighter
than `place`. -/
def expression : Nat → Precedence → Parse Expr
  | 0, _ => failTooDeep
  | levels + 1, place => do
    let left ← primary (expression levels) (block levels)
    operators levels place left
termination_by structural levels => levels

/-- The operators that bind tighter than `place`, each around all before it. Each uses up a
level of those that are left to the expression. -/
def operators : Nat → Precedence → Expr → Parse Expr
  | 0, place, left => do
    match (← get).operator? with
    | some op => if place.rank < op.precedence.rank then failTooDeep else return left
    | none => return left
  | levels + 1, place, left => do
    match (← get).operator? with
    | some op =>
      if place.rank < op.precedence.rank then
        let wrapped ← wrap (expression levels) left op
        operators levels place wrapped
      else return left
    | none => return left
termination_by structural levels => levels

/-- A block within a number of levels. -/
def block : Nat → Parse Block
  | 0 => failTooDeep
  | levels + 1 => braced (node (expression levels .lowest) (block levels))
termination_by structural levels => levels

end

/-! ### Programs -/

/-- The next node of a program, or nothing at the end of the text. -/
def nextNode (levels : Nat) : Parse (Option Node) := do
  skipSemicolons
  match (← get).lookahead? with
  | some ⟨.eof, _⟩ => return none
  | none => failAtEnd
  | some _ =>
    let x ← node (expression levels .lowest) (block levels)
    terminator x .eof
    return some x

/-- At most `n` nodes of a program, up to the end of the text. -/
def programWithin (levels : Nat) : Nat → Parse (List Node)
  | 0 => return []
  | n + 1 => do
    match ← nextNode levels with
    | none => return []
    | some x =>
      let xs ← programWithin levels n
      return x :: xs

/-- All nodes of a program. Each takes a lexeme, which bounds their number. -/
def program (levels : Nat) : Parse Program := do
  let start := ((← get).lookahead?.map (·.span.start)).getD 0
  let nodes ← programWithin levels ((← get).lexemes.length + 1)
  return ⟨nodes, start, max (← get).lastStop start⟩

end Parse

namespace Program

/-- The program of a stream of lexemes, with the state in which the parser stops. -/
def ofStream (levels : Nat) (stream : LexemeStream) :
    EStateM.Result ParseError ParserState Program :=
  Parse.program levels (.ofStream stream)

/-- The program of a text, or why it is none. -/
def parse (text : String) : Except ParseError Program :=
  match ofStream maxNesting (.ofText text) with
  | .ok program _ => .ok program
  | .error error _ => .error error

end Program

end Script
