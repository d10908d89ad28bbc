import Script.Span
import Script.Text.Blank
import Script.Token

/-!
# Lexemes

A lexeme is a token together with the stretch of text that spells it. A text is read from a
*cursor*, a byte offset with the characters from there on. Each reading skips blanks and takes the
longest lexeme that begins there, or reports why none does; either way the cursor moves on, so
reading can go on after an error. At the end of the text every reading gives `eof`.

* `Cursor.next`: one reading.
* `Cursor.readings`: all readings up to the end of the text.
-/

namespace Script

open Text (byteLength isBlank)

/-! ### Errors -/

/-- Why a stretch of text is no lexeme. -/
inductive LexicalCause where
  /-- No token begins with this character. -/
  | unrecognized (char : Char)
  /-- A backslash in a string is followed by a character that it does not go with. -/
  | unknownEscape (char : Char)
  /-- The text ends inside a string. -/
  | missingStringEnd
  /-- A run of digits says a number above the greatest integer. -/
  | integerOverflow
deriving DecidableEq, Repr

namespace LexicalCause

/-- The headline of a lexical error. -/
def headline : LexicalCause → String
  | unrecognized _ => "Unrecognized character"
  | unknownEscape _ => "Unknown escape sequence"
  | missingStringEnd => "Unterminated string literal"
  | integerOverflow => "Integer literal is too large"

/-- The lines that explain a lexical error. -/
def details : LexicalCause → List String
  | unrecognized c => ["Found `" ++ c.toString ++ "` which does not start any token"]
  | unknownEscape c =>
    ["`\\" ++ c.toString ++ "` is not supported, expected one of: \\\" \\\\ \\n \\t"]
  | missingStringEnd => ["Missing closing `\"`"]
  | integerOverflow => ["Maximum value is " ++ toString Integer.greatest]

end LexicalCause

/-- A lexical error: its cause and the stretch of text at fault. -/
structure LexicalError where
  cause : LexicalCause
  span : Span
deriving DecidableEq, Repr

/-! ### Reading -/

/-- A token and the stretch of text that spells it. -/
structure Lexeme where
  token : Token
  span : Span
deriving DecidableEq, Repr

/-- A place in a text: the number of bytes before it and the characters from there on. -/
structure Cursor where
  offset : Nat
  rest : List Char
deriving DecidableEq, Repr

/-- What one reading gives. -/
abbrev Reading := Except LexicalError Lexeme

namespace Cursor

/-- The beginning of a text. -/
def ofChars (cs : List Char) : Cursor :=
  ⟨0, cs⟩

/-- The place after the longest run of characters in a class. -/
def dropWhile (c : Cursor) (p : Char → Bool) : Cursor :=
  ⟨c.offset + byteLength (c.rest.takeWhile p), c.rest.dropWhile p⟩

/-- The lexeme from one place to another. -/
def lexeme (c : Cursor) (token : Token) (after : Cursor) : Reading × Cursor :=
  (.ok ⟨token, .between c.offset after.offset⟩, after)

/-- The error from one place to another. -/
def error (c : Cursor) (cause : LexicalCause) (after : Cursor) : Reading × Cursor :=
  (.error ⟨cause, .between c.offset after.offset⟩, after)

/-- The characters that begin a word: ASCII letters and the underscore. -/
def beginsWord (c : Char) : Bool :=
  c.isAlpha || c == '_'

/-- The characters of a word: ASCII letters, digits and the underscore. -/
def inWord (c : Char) : Bool :=
  c.isAlphanum || c == '_'

/-- A keyword or a name: the longest run of word characters. -/
def word (c : Cursor) : Reading × Cursor :=
  let text := String.ofList (c.rest.takeWhile inWord)
  let token := match Keyword.ofText? text with
    | some keyword => .keyword keyword
    | none => .name text
  c.lexeme token (c.dropWhile inWord)

/-- The number that a run of digits says. -/
def decimal (digits : List Char) : Nat :=
  digits.foldl (fun n d => 10 * n + (d.toNat - '0'.toNat)) 0

/-- An integer: the longest run of digits, if its number is in range. -/
def number (c : Cursor) : Reading × Cursor :=
  let after := c.dropWhile Char.isDigit
  match Integer.ofInt? (decimal (c.rest.takeWhile Char.isDigit)) with
  | some value => c.lexeme (.integer value) after
  | none => c.error .integerOverflow after

/-- The character that a backslash and a letter stand for inside a string. -/
def unescape? : Char → Option Char
  | 'n' => some '\n'
  | 't' => some '\t'
  | '"' => some '"'
  | '\\' => some '\\'
  | _ => none

/-- The rest of a string that begins at `start`, read from `offset` on, where `value` holds the
characters read so far, the last one first. An error in an escape covers the escape alone, and
reading goes on right after it. -/
def stringFrom (start : Cursor) (offset : Nat) (value : List Char) :
    List Char → Reading × Cursor
  | [] => start.error .missingStringEnd ⟨offset, []⟩
  | '"' :: rest => start.lexeme (.string (String.ofList value.reverse)) ⟨offset + 1, rest⟩
  | '\\' :: [] => start.error .missingStringEnd ⟨offset + 1, []⟩
  | '\\' :: letter :: rest =>
    let after := offset + 1 + letter.utf8Size
    match unescape? letter with
    | some char => stringFrom start after (char :: value) rest
    | none => error ⟨offset, '\\' :: letter :: rest⟩ (.unknownEscape letter) ⟨after, rest⟩
  | char :: rest => stringFrom start (offset + char.utf8Size) (char :: value) rest

/-- The lexeme that begins right at a place, blanks not being skipped. -/
def read (c : Cursor) : Reading × Cursor :=
  match c.rest with
  | [] => c.lexeme .eof c
  | '/' :: '/' :: _ => c.lexeme .comment (c.dropWhile (· != '\n'))
  | '"' :: rest => c.stringFrom (c.offset + 1) [] rest
  | char :: rest =>
    if beginsWord char then c.word
    else if char.isDigit then c.number
    else match Symbol.longest? (char :: rest) with
      | some (sign, after) => c.lexeme (.symbol sign) ⟨c.offset + byteLength sign.chars, after⟩
      | none => c.error (.unrecognized char) ⟨c.offset + char.utf8Size, rest⟩

/-- One reading: the next lexeme after any blanks. -/
def next (c : Cursor) : Reading × Cursor :=
  (c.dropWhile isBlank).read

/-- The place after a number of readings. -/
def skip : Nat → Cursor → Cursor
  | 0, c => c
  | n + 1, c => skip n c.next.2

/-- At most `n` readings, up to the first `eof`. -/
def readingsWithin : Nat → Cursor → List Reading
  | 0, _ => []
  | n + 1, c =>
    let (reading, after) := c.next
    match reading with
    | .ok ⟨.eof, _⟩ => [reading]
    | _ => reading :: readingsWithin n after

/-- All readings up to the end of the text. Each one but the last takes a character, which
bounds their number. -/
def readings (c : Cursor) : List Reading :=
  readingsWithin (c.rest.length + 1) c

end Cursor

end Script
