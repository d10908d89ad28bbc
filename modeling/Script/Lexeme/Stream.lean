import Script.Lexeme

/-!
# Streams of lexemes

What the syntax of a script is read from: the lexemes of a text up to its end or to its first
lexical error, whichever comes first. Comments are set aside; only their spans are kept, and where
they stand among the lexemes.

* `LexemeStream.ofText`: the stream of a text.
-/

namespace Script

/-- How a stream of lexemes ends: with the text, whose length it tells, or with the text's first
lexical error. -/
inductive Ending where
  | eof (offset : UInt32)
  | broken (error : LexicalError)
deriving DecidableEq, Repr

/-- A comment of a text: its span, and the number of lexemes that follow it. -/
structure Comment where
  span : Span
  following : Nat
deriving DecidableEq, Repr

/-- The lexemes of a text without its comments, the comments, and how they end. -/
structure LexemeStream where
  lexemes : List Lexeme
  comments : List Comment
  ending : Ending
deriving DecidableEq, Repr

namespace LexemeStream

/-- The stream of a list of readings. Nothing after the first error or the first `eof` counts;
readings that stop without either end where the last one stopped. -/
def ofReadings (offset : UInt32) : List Reading → LexemeStream
  | [] => ⟨[], [], .eof offset⟩
  | .error e :: _ => ⟨[], [], .broken e⟩
  | .ok lexeme :: rest =>
    let after := ofReadings lexeme.span.stop rest
    match lexeme.token with
    | .eof => ⟨[], [], .eof lexeme.span.start⟩
    | .comment =>
      { after with comments := ⟨lexeme.span, after.lexemes.length⟩ :: after.comments }
    | _ => { after with lexemes := lexeme :: after.lexemes }

/-- The stream of a text. -/
def ofChars (cs : List Char) : LexemeStream :=
  ofReadings 0 (Cursor.ofChars cs).readings

/-- The stream of a string. -/
def ofText (text : String) : LexemeStream :=
  ofChars text.toList

end LexemeStream

end Script
