import Script.Lexeme.Stream
import Script.ParseError
import Script.Syntax

/-!
# The state of a parser

A parser takes the lexemes of a stream one by one. What it sees at any time is its *lookahead*: the
next lexeme, or `eof` at the end of the text, or nothing if the text goes on with a lexical error.
Besides the lexemes left it remembers where the last lexeme that it took ended. A parser that fails
keeps the state in which it failed, so that reading can go on after an error.

* `Parse`: the parsers.
* `Parse.expect`, `Parse.list`: one token, and a list of items with commas between them.
-/

namespace Script

/-- What a parser has left to read, and where the last lexeme that it took ended. -/
structure ParserState where
  lexemes : List Lexeme
  ending : Ending
  lastStop : UInt32
deriving DecidableEq, Repr

namespace ParserState

/-- The state before the first lexeme of a stream. -/
def ofStream (stream : LexemeStream) : ParserState :=
  ⟨stream.lexemes, stream.ending, 0⟩

/-- What comes next: a lexeme, the end of the text as the lexeme `eof`, or nothing where the
text cannot be read on. -/
def lookahead? (s : ParserState) : Option Lexeme :=
  match s.lexemes, s.ending with
  | lexeme :: _, _ => some lexeme
  | [], .eof offset => some ⟨.eof, .point offset⟩
  | [], .broken _ => none

/-- The lexical error that stops the parser, once nothing is left before it. -/
def lexicalError? (s : ParserState) : Option LexicalError :=
  match s.lexemes, s.ending with
  | [], .broken error => some error
  | _, _ => none

/-- The error of a text that ends too early: its lexical error if it has one, else its end,
which is told at the end of the last lexeme. -/
def endError (s : ParserState) : ParseError :=
  match s.ending with
  | .broken error => ⟨.lexical error.cause, error.span⟩
  | .eof _ => ⟨.unexpectedEnd, .point s.lastStop⟩

/-- Where the nesting is found too deep: at the lookahead, or after the last lexeme. -/
def depthError (s : ParserState) : ParseError :=
  match s.lookahead? with
  | some lexeme => ⟨.nestingTooDeep, lexeme.span⟩
  | none => ⟨.nestingTooDeep, .point s.lastStop⟩

/-- The spans of the comments passed so far, of all comments of the stream: those before the
lookahead, which all lexemes left to read follow. -/
def commentsPassed (s : ParserState) (comments : List Comment) : List Span :=
  (comments.filter fun comment => s.lexemes.length ≤ comment.following).map (·.span)

/-- The state after the next lexeme is taken. -/
def advance (s : ParserState) : ParserState :=
  match s.lexemes with
  | [] => s
  | lexeme :: rest => { s with lexemes := rest, lastStop := lexeme.span.stop }

end ParserState

/-- A parser: it takes lexemes and gives a result or an error of syntax. -/
abbrev Parse := EStateM ParseError ParserState

namespace Parse

/-! ### Single tokens -/

/-- Fails because the text ends too early. -/
def failAtEnd {α : Type} : Parse α := do
  throw (← get).endError

/-- Fails because the nesting is too deep. -/
def failTooDeep {α : Type} : Parse α := do
  throw (← get).depthError

/-- Takes the next lexeme. -/
def advance : Parse Unit :=
  modify ParserState.advance

/-- Whether a certain token comes next. -/
def comes (token : Token) : Parse Bool := do
  return (← get).lookahead?.map (·.token) == some token

/-- Takes a certain token and gives its span. -/
def expect (token : Token) : Parse Span := do
  match (← get).lexemes with
  | [] => failAtEnd
  | lexeme :: _ =>
    if lexeme.token = token then
      advance
      return lexeme.span
    else
      throw ⟨.unexpectedToken lexeme.token token, lexeme.span⟩

/-- Takes a name. -/
def expectName : Parse Ident := do
  match (← get).lexemes with
  | [] => failAtEnd
  | ⟨.name text, span⟩ :: _ =>
    advance
    return ⟨text, span⟩
  | lexeme :: _ => throw ⟨.expectedName, lexeme.span⟩

/-- Takes all semicolons that come next, at most `n`. -/
def skipSemicolonsWithin : Nat → Parse Unit
  | 0 => pure ()
  | n + 1 => do
    if ← comes (.symbol .semicolon) then
      advance
      skipSemicolonsWithin n

/-- Takes all semicolons that come next. -/
def skipSemicolons : Parse Unit := do
  skipSemicolonsWithin (← get).lexemes.length

/-! ### Lists -/

/-- At most `n` items, each after a comma. -/
def afterCommasWithin {α : Type} (item : Parse α) : Nat → Parse (List α)
  | 0 => pure []
  | n + 1 => do
    if ← comes (.symbol .comma) then
      advance
      let x ← item
      let xs ← afterCommasWithin item n
      return x :: xs
    else
      return []

/-- The items that follow, each after a comma. Each takes a lexeme, which bounds their
number. -/
def afterCommas {α : Type} (item : Parse α) : Parse (List α) := do
  afterCommasWithin item (← get).lexemes.length

/-- Items with commas between them, up to and with the closing symbol, whose end is given too.
There may be no item at all, but no comma stands after the last. -/
def list {α : Type} (item : Parse α) (closing : Symbol) : Parse (List α × UInt32) := do
  if ← comes (.symbol closing) then
    let close ← expect (.symbol closing)
    return ([], close.stop)
  else
    let x ← item
    let xs ← afterCommas item
    let close ← expect (.symbol closing)
    return (x :: xs, close.stop)

end Parse

end Script
