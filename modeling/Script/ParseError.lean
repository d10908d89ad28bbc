import Script.Lexeme

/-!
# Errors of syntax

Why a text is no program, where, and in what words.
-/

namespace Script

/-- The deepest nesting of expressions and blocks that is read. -/
def maxNesting : Nat := 1000

/-- Why a text is no program. -/
inductive ParseCause where
  /-- Another token stands where a name has to. -/
  | expectedName
  /-- No expression begins with the token that stands where one has to. -/
  | expectedExpression (found : Token)
  /-- The text ends too early. -/
  | unexpectedEnd
  /-- Another token stands where a certain one has to. -/
  | unexpectedToken (found expected : Token)
  /-- Two nodes stand side by side. -/
  | missingSemicolon
  /-- Expressions and blocks nest too deep. -/
  | nestingTooDeep
  /-- The text goes on with something that is no lexeme. -/
  | lexical (cause : LexicalCause)
deriving DecidableEq, Repr

namespace ParseCause

/-- The headline of an error of syntax. -/
def headline : ParseCause → String
  | expectedName => "Expected identifier"
  | expectedExpression _ => "Expected expression"
  | unexpectedEnd => "Unexpected end of input"
  | unexpectedToken _ _ => "Not expected this"
  | missingSemicolon => "Missing semicolon"
  | nestingTooDeep => "Nesting too deep"
  | lexical cause => cause.headline

/-- The lines that explain an error of syntax. -/
def details : ParseCause → List String
  | expectedExpression found =>
    ["Found " ++ found.phrase ++ ", which cannot start an expression"]
  | unexpectedToken found expected =>
    ["Found " ++ found.phrase ++ ", expected one of: ", "- " ++ expected.literal]
  | nestingTooDeep =>
    ["Expressions and blocks nest at most " ++ toString maxNesting ++ " levels deep"]
  | lexical cause => cause.details
  | _ => []

/-- An error of syntax on one line: the headline, and after a colon what explains it. -/
def message (cause : ParseCause) : String :=
  match cause.details with
  | [] => cause.headline
  | lines => cause.headline ++ ": " ++ " ".intercalate lines

end ParseCause

/-- An error of syntax: its cause and the stretch of text at fault. -/
structure ParseError where
  cause : ParseCause
  span : Span
deriving DecidableEq, Repr

end Script
