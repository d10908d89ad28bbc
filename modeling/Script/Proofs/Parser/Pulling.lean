import Script.Parser

/-!
# A parser that pulls

A text can also be parsed without a stream: the parser holds the lexer and pulls one reading at a
time out of it, as few as it needs. It keeps the lexeme in front of it, the spans of the comments
that it came across, the lexical error if there was one, and how deep the expressions and blocks
nest at the moment. How often a loop may go round is a bound that has nothing to do with the syntax;
a parser that needs more gives nothing at all, neither a result nor an error, as if it never ended.

* `Puller.step`: the next lexeme is handed out and another one pulled;
* `Pull.nested`: one level deeper, and back;
* `Pull.expression`, `Pull.block`, `Pull.program`: the parsers.

No bound is ever needed: a text is parsed to its end, to what the parsers of a stream give, as
`Pull.agrees_program` shows.
-/

namespace Script

/-- What a parser holds that pulls: the lexer, the lexeme in front of it, the spans of the
comments that it came across, the lexical error that it met, where the last lexeme that it took
ended, and how deep it is. Besides, all readings that the lexer has handed out are written down. -/
structure Puller where
  lexer : Cursor
  pulled : List Reading
  current? : Option Lexeme
  comments : List Span
  failure? : Option LexicalError
  lastStop : UInt32
  depth : Nat

namespace Puller

/-- The state before anything is pulled out of a text. -/
def ofText (text : String) : Puller where
  lexer := .ofChars text.toList
  pulled := []
  current? := none
  comments := []
  failure? := none
  lastStop := 0
  depth := 0

/-- How often a loop may go round: more often than there are characters left to read. -/
def rounds (S : Puller) : Nat :=
  S.lexer.rest.length + 2

/-- Pulls until there is something to look at: a lexeme or a lexical error, at most `n` readings
in all. Comments are passed, and their spans kept. -/
def pullWithin : Nat → Puller → Option Puller
  | 0, _ => none
  | n + 1, S =>
    let (reading, after) := S.lexer.next
    let S := { S with lexer := after, pulled := S.pulled ++ [reading] }
    match reading with
    | .error error => some { S with failure? := some error }
    | .ok ⟨.comment, span⟩ => pullWithin n { S with comments := S.comments ++ [span] }
    | .ok lexeme => some { S with current? := some lexeme }

/-- The state after the lexeme in front is handed out. Nothing more is pulled once the lexer has
failed. -/
def step (S : Puller) : Option Puller :=
  let taken := { S with
    current? := none
    lastStop := (S.current?.map (·.span.stop)).getD S.lastStop }
  match S.failure? with
  | some _ => some taken
  | none => taken.pullWithin taken.rounds

/-- The error where nothing is left: the lexical error if there was one, else the end of the
text. -/
def endError (S : Puller) : ParseError :=
  match S.failure? with
  | some error => ⟨.lexical error.cause, error.span⟩
  | none => ⟨.unexpectedEnd, .point S.lastStop⟩

/-- The error of another token than the expected one. -/
def unexpected (S : Puller) (expected : Token) : ParseError :=
  match S.current? with
  | some ⟨.eof, _⟩ => S.endError
  | some lexeme => ⟨.unexpectedToken lexeme.token expected, lexeme.span⟩
  | none => S.endError

/-- The error of a nesting that is too deep. -/
def depthError (S : Puller) : ParseError :=
  match S.current? with
  | some lexeme => ⟨.nestingTooDeep, lexeme.span⟩
  | none => ⟨.nestingTooDeep, .point S.lastStop⟩

/-- The operator in front, if there is one. -/
def operator? (S : Puller) : Option Operator :=
  S.current?.bind (Operator.ofToken? ·.token)

end Puller

/-- A parser that pulls. It gives a result or an error, with the state that it leaves, and
nothing at all if its loops go round too often. -/
abbrev Pull := ExceptT ParseError (StateT Puller Option)

namespace Pull

variable {α : Type}

/-- Gives nothing at all. -/
def unfinished : Pull α := fun _ => none

/-! ### Single tokens -/

/-- Fails because nothing is left. -/
def failAtEnd : Pull α := do
  throw (← get).endError

/-- Hands out the lexeme in front. -/
def nextToken : Pull (Option Lexeme) := fun S => do
  let S' ← S.step
  return (.ok S.current?, S')

/-- Passes the lexeme in front. -/
def step : Pull Unit := do
  let _ ← nextToken
  return

/-- Whether a certain token is in front. -/
def comes (token : Token) : Pull Bool := do
  return (← get).current?.map (·.token) == some token

/-- Takes a certain token and gives its span. -/
def expect (token : Token) : Pull Span := do
  let S ← get
  match S.current? with
  | some lexeme =>
    if lexeme.token = token then
      step
      return lexeme.span
    else
      throw (S.unexpected token)
  | none => throw (S.unexpected token)

/-- Takes a name. -/
def expectName : Pull Ident := do
  match (← get).current? with
  | some ⟨.name text, span⟩ =>
    step
    return ⟨text, span⟩
  | some ⟨.eof, _⟩ => failAtEnd
  | some lexeme => throw ⟨.expectedName, lexeme.span⟩
  | none => failAtEnd

/-- Takes all semicolons in front, fewer than `n`. -/
def skipSemicolonsWithin : Nat → Pull Unit
  | 0 => unfinished
  | n + 1 => do
    if ← comes (.symbol .semicolon) then
      step
      skipSemicolonsWithin n

/-- Takes all semicolons in front. -/
def skipSemicolons : Pull Unit := do
  skipSemicolonsWithin (← get).rounds

/-! ### Nesting -/

/-- Goes one level deeper, if there is one. -/
def enter : Pull Unit := do
  let S ← get
  set { S with depth := S.depth + 1 }
  if maxNesting < S.depth + 1 then
    throw S.depthError

/-- Parses one level deeper. The depth is what it was afterwards, after an error too. -/
def nested (parse : Pull α) : Pull α := fun S => do
  let (result, S') ← (enter >>= fun _ => parse : Pull α) S
  return (result, { S' with depth := S.depth })

/-! ### Lists -/

/-- The items that follow, each after a comma, fewer than `n`. -/
def afterCommasWithin (item : Pull α) : Nat → Pull (List α)
  | 0 => unfinished
  | n + 1 => do
    if ← comes (.symbol .comma) then
      step
      let x ← item
      let xs ← afterCommasWithin item n
      return x :: xs
    else
      return []

/-- The items that follow, each after a comma. -/
def afterCommas (item : Pull α) : Pull (List α) := do
  afterCommasWithin item (← get).rounds

/-- Items with commas between them, up to and with the closing symbol, whose end is given
too. -/
def list (item : Pull α) (closing : Symbol) : Pull (List α × UInt32) := do
  if ← comes (.symbol closing) then
    let close ← expect (.symbol closing)
    return ([], close.stop)
  else
    let x ← item
    let xs ← afterCommas item
    let close ← expect (.symbol closing)
    return (x :: xs, close.stop)

/-! ### Pieces of expressions -/

/-- One pair of a map: key, colon, value. -/
def pair (expression : Pull Expr) : Pull (Expr × Expr) := do
  let key ← expression
  let _ ← expect (.symbol .colon)
  let value ← expression
  return (key, value)

/-- A function. -/
def function (block : Pull Block) : Pull Expr := do
  let opening ← expect (.keyword .functionWord)
  let _ ← expect (.symbol .leftParen)
  let (parameters, _) ← list expectName .rightParen
  let body ← block
  return .function parameters body ⟨opening.start, body.span.stop⟩

/-- An operator in front of its operand. -/
def unary (expression : Precedence → Pull Expr) (op : UnaryOp) : Pull Expr := do
  match ← nextToken with
  | some lexeme =>
    let operand ← expression .unary
    return .unary op operand ⟨lexeme.span.start, operand.span.stop⟩
  | none => failAtEnd

/-- An expression in parentheses. -/
def group (expression : Precedence → Pull Expr) : Pull Expr := do
  step
  let inner ← expression .lowest
  let _ ← expect (.symbol .rightParen)
  return inner

/-- An array. -/
def array (expression : Precedence → Pull Expr) : Pull Expr := do
  let opening ← expect (.symbol .leftBracket)
  let (elements, stop) ← list (expression .lowest) .rightBracket
  return .array elements ⟨opening.start, stop⟩

/-- A map. -/
def map (expression : Precedence → Pull Expr) : Pull Expr := do
  let opening ← expect (.symbol .leftBrace)
  let (pairs, stop) ← list (pair (expression .lowest)) .rightBrace
  return .map pairs ⟨opening.start, stop⟩

/-- An expression of one lexeme. -/
def atom (e : Expr) : Pull Expr := do
  step
  return e

/-- An expression that no operator after it wraps. -/
def primary (expression : Precedence → Pull Expr) (block : Pull Block) : Pull Expr := do
  match (← get).current? with
  | none => failAtEnd
  | some ⟨token, span⟩ =>
    match token with
    | .name text => atom (.name ⟨text, span⟩)
    | .integer value => atom (.integer value span)
    | .string value => atom (.string value span)
    | .keyword .trueWord => atom (.boolean true span)
    | .keyword .falseWord => atom (.boolean false span)
    | .symbol .leftParen => group expression
    | .symbol .leftBracket => array expression
    | .symbol .leftBrace => map expression
    | .keyword .functionWord => function block
    | .symbol .plus => unary expression .plus
    | .symbol .minus => unary expression .minus
    | .symbol .bang => unary expression .not
    | .eof => failAtEnd
    | token => throw ⟨.expectedExpression token, span⟩

/-- An expression wrapped by the operator after it. -/
def wrap (expression : Precedence → Pull Expr) (left : Expr) (op : Operator) : Pull Expr := do
  match op with
  | .call =>
    let _ ← expect (.symbol .leftParen)
    let (arguments, stop) ← list (expression .lowest) .rightParen
    return .call left arguments ⟨left.span.start, stop⟩
  | .index =>
    let _ ← expect (.symbol .leftBracket)
    let key ← expression .lowest
    let close ← expect (.symbol .rightBracket)
    return .index left key ⟨left.span.start, close.stop⟩
  | .assign =>
    match ← nextToken with
    | some _ =>
      let value ← expression op.rightPrecedence
      return .assign left value (left.span.hull value.span)
    | none => failAtEnd
  | .binary op' =>
    match ← nextToken with
    | some _ =>
      let right ← expression op.rightPrecedence
      return .binary op' left right (left.span.hull right.span)
    | none => failAtEnd

/-- The operators that bind tighter than `place`, fewer than `n`, each around all before it and
one level deeper. -/
def operatorsWithin (expression : Precedence → Pull Expr) (place : Precedence) :
    Nat → Expr → Pull Expr
  | 0, _ => unfinished
  | n + 1, left => do
    match (← get).operator? with
    | some op =>
      if place.rank < op.precedence.rank then
        enter
        let wrapped ← wrap expression left op
        operatorsWithin expression place n wrapped
      else
        return left
    | none => return left

/-- The operators that bind tighter than `place`, around an expression in front of them. -/
def operators (expression : Precedence → Pull Expr) (place : Precedence) (left : Expr) :
    Pull Expr := do
  operatorsWithin expression place (← get).rounds left

/-! ### Pieces of nodes -/

/-- A `let`. -/
def binding (expression : Pull Expr) : Pull Node := do
  let opening ← expect (.keyword .letWord)
  let ident ← expectName
  let _ ← expect (.symbol .assign)
  let value ← expression
  return .binding ident value ⟨opening.start, value.span.stop⟩

/-- A `return`, with or without a value. -/
def returning (expression : Pull Expr) : Pull Node := do
  let opening ← expect (.keyword .returnWord)
  if (← get).current?.any (Parse.endsReturn ·.token) then
    return .returning none opening
  else
    let value ← expression
    return .returning (some value) ⟨opening.start, value.span.stop⟩

/-- An `if` with fewer than `n` in all that follow it after `else`. -/
def conditionalWithin (expression : Pull Expr) (block : Pull Block) : Nat → Pull Node
  | 0 => unfinished
  | n + 1 => do
    let opening ← expect (.keyword .ifWord)
    let condition ← expression
    let consequence ← block
    if ← comes (.keyword .elseWord) then
      step
      let alternative : Block ←
        if ← comes (.keyword .ifWord) then
          let inner ← conditionalWithin expression block n
          pure ⟨[inner], inner.span⟩
        else
          block
      return .conditional condition consequence (some alternative)
        ⟨opening.start, alternative.span.stop⟩
    else
      return .conditional condition consequence none ⟨opening.start, consequence.span.stop⟩

/-- An `if` with all that follow it after `else`. -/
def conditional (expression : Pull Expr) (block : Pull Block) : Pull Node := do
  conditionalWithin expression block (← get).rounds

/-- A node. -/
def node (expression : Pull Expr) (block : Pull Block) : Pull Node := do
  match (← get).current? with
  | some ⟨.keyword .letWord, _⟩ => binding expression
  | some ⟨.keyword .returnWord, _⟩ => returning expression
  | some ⟨.keyword .ifWord, _⟩ => conditional expression block
  | some _ => .expression <$> expression
  | none => failAtEnd

/-- What has to follow a node: a semicolon, the closing token of its block if it stands in one,
or the end of the text if it does not. After a node that ends with a block, nothing has to. -/
def terminator (node : Node) (closing? : Option Token) : Pull Unit := do
  let S ← get
  match S.current? with
  | some ⟨token, _⟩ =>
    if token = .symbol .semicolon then
      step
    else if token = .eof ∧ closing? = none then
      pure ()
    else if some token = closing? then
      pure ()
    else if node.endsWithBlock then
      pure ()
    else if token = .eof then
      failAtEnd
    else
      throw ⟨.missingSemicolon, .point S.lastStop⟩
  | none => if node.endsWithBlock then pure () else failAtEnd

/-- The nodes up to the closing brace, fewer than `n`. The brace is taken, and its end is given
too. -/
def nodesWithin (node : Pull Node) : Nat → Pull (List Node × UInt32)
  | 0 => unfinished
  | n + 1 => do
    skipSemicolons
    if ← comes (.symbol .rightBrace) then
      let close ← expect (.symbol .rightBrace)
      return ([], close.stop)
    else
      let x ← node
      terminator x (some (.symbol .rightBrace))
      let (xs, stop) ← nodesWithin node n
      return (x :: xs, stop)

/-- The nodes between two braces. -/
def braced (node : Pull Node) : Pull Block := do
  let opening ← expect (.symbol .leftBrace)
  let (nodes, stop) ← nodesWithin node (← get).rounds
  return ⟨nodes, opening.start, stop⟩

/-! ### Expressions and blocks

The number is how many expressions and blocks may be open at once. -/

mutual

/-- An expression, up to the first operator that binds no tighter than `place`. -/
def expression : Nat → Precedence → Pull Expr
  | 0, _ => unfinished
  | n + 1, place => nested do
    let left ← primary (expression n) (block n)
    operators (expression n) place left
termination_by structural n => n

/-- A block. -/
def block : Nat → Pull Block
  | 0 => unfinished
  | n + 1 => nested (braced (node (expression n .lowest) (block n)))
termination_by structural n => n

end

/-! ### Programs -/

/-- The next node of a program, or nothing at the end of the text. -/
def nextNode (n : Nat) : Pull (Option Node) := do
  skipSemicolons
  let S ← get
  match S.current? with
  | some ⟨.eof, _⟩ => return none
  | some _ =>
    let x ← node (expression n .lowest) (block n)
    terminator x none
    return some x
  | none =>
    match S.failure? with
    | some _ => failAtEnd
    | none => return none

/-- The nodes of a program up to the end of the text, fewer than the second number. -/
def programWithin (n : Nat) : Nat → Pull (List Node)
  | 0 => unfinished
  | m + 1 => do
    match ← nextNode n with
    | none => return []
    | some x =>
      let xs ← programWithin n m
      return x :: xs

/-- All of a program. -/
def program (n : Nat) : Pull Program := do
  let start := ((← get).current?.map (·.span.start)).getD 0
  let nodes ← programWithin n (← get).rounds
  return ⟨nodes, start, max (← get).lastStop start⟩

end Pull

/-- The program of a text, pulled out of its lexer, or why it is none, with the state in which
the parser stops. At most as many expressions and blocks are open at once as may nest, and one
more that is found to be too deep. -/
def Program.pull (text : String) : Option (Except ParseError Program × Puller) := do
  let S ← (Puller.ofText text).step
  Pull.program (maxNesting + 1) S

end Script
