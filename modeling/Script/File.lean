import Script.Eval
import Script.Parser
import Script.Text.Utf8

/-!
# Running files

A file is decoded while it is read, and no further than reading its syntax asks for: up to the end
of the last lexeme looked at, and two pulls more. What lies beyond is never looked at, so it cannot
matter. If a fault is among the pulls looked at, the last such fault is the failure, whatever the
syntax is; the characters looked at are the source that an error is reported with.

How bytes are decoded is left open (`Decoder`): all that counts here is the order in which
characters and faults come.

* `Utf8.decoder`: the decoder of the program.
* `File.runWith`: the value of a file, or its failure, by a decoder; `File.run`: by that one.
-/

namespace Script

/-- Why a file cannot be read. -/
inductive ReadFault where
  | notFound
  | notADirectory
  | isADirectory
  | permissionDenied
  | invalidName
  | invalidInput
  | invalidData
  | unexpectedEnd
  | other
deriving DecidableEq, Repr

namespace ReadFault

/-- A fault in words. -/
def message : ReadFault → String
  | notFound => "entity not found"
  | notADirectory => "not a directory"
  | isADirectory => "is a directory"
  | permissionDenied => "permission denied"
  | invalidName => "invalid filename"
  | invalidInput => "invalid input parameter"
  | invalidData => "invalid data"
  | unexpectedEnd => "unexpected end of file"
  | other => "other error"

/-- A fault of decoding as a fault of reading. -/
def ofUtf8 : Utf8.Fault → ReadFault
  | .invalidData => invalidData
  | .unexpectedEnd => unexpectedEnd

end ReadFault

/-- A decoder: all that it gives for the bytes of a file, one pull after another, each a character
or the fault that stands in its place. After the last of them it gives nothing. -/
abbrev Decoder := List UInt8 → List (Except ReadFault Char)

/-- The decoder of the program. -/
def Utf8.decoder : Decoder :=
  fun bytes => (pulls bytes).map (Except.mapError ReadFault.ofUtf8)

/-- Why running a file failed, with the source as far as it was looked at. -/
inductive Failure where
  | syntaxError (source : List Char) (error : ParseError)
  | runtimeError (source : List Char) (error : RuntimeError)
  | unreadable (fault : ReadFault)
deriving DecidableEq

/-- A failure on one line. -/
def Failure.message : Failure → String
  | syntaxError _ _ => "failed to parse source code"
  | runtimeError _ error => "evaluation failed: " ++ error.cause.message
  | unreadable _ => "IO operation failed"

namespace File

/-- The pulls looked at when the text has been read up to a place: those of the characters before
it, and two more. -/
def lookedAt (pulls : List (Except ReadFault Char)) (c : Cursor) : List (Except ReadFault Char) :=
  pulls.take ((Utf8.characters pulls).length - c.rest.length + 2)

/-- What the bytes of a file say: its source and program, or why there is none. -/
def read (decode : Decoder) (bytes : List UInt8) : Except Failure (List Char × Program) :=
  let pulls := decode bytes
  let text := Cursor.ofChars (Utf8.characters pulls)
  let stream := LexemeStream.ofChars text.rest
  let result := Program.ofStream maxNesting stream
  let state := match result with
    | .ok _ state => state
    | .error _ state => state
  -- the readings so far: lexemes taken, comments passed, and the lookahead
  let taken := stream.lexemes.length - state.lexemes.length
  let passed := (state.commentsPassed stream.comments).length
  let looked := lookedAt pulls (text.skip (taken + passed + 1))
  match Utf8.lastFault? looked with
  | some fault => .error (.unreadable fault)
  | none =>
    match result with
    | .ok program _ => .ok (Utf8.characters looked, program)
    | .error error _ => .error (.syntaxError (Utf8.characters looked) error)

/-- Runs a file in a scope. Its content is given, or why it cannot be had. Unless the whole file
is a program, the store stays as it was. -/
def runWith (decode : Decoder) (content : Except ReadFault (List UInt8)) (scope : Ref .scope)
    (store : Store) : Except Failure Value × Store :=
  match content with
  | .error fault => (.error (.unreadable fault), store)
  | .ok bytes =>
    match read decode bytes with
    | .error failure => (.error failure, store)
    | .ok (source, program) =>
      match Eval.program scope program store with
      | .ok value store => (.ok value, store)
      | .error error store => (.error (.runtimeError source error), store)

/-- Runs a file as the program does. -/
def run (content : Except ReadFault (List UInt8)) (scope : Ref .scope) (store : Store) :
    Except Failure Value × Store :=
  runWith Utf8.decoder content scope store

end File

end Script
