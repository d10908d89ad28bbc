import Script.Report
import Script.Session

/-!
# Interactive consoles

A console prints a prompt, reads a line and answers it, over and over. There are three kinds: one
answers with the values of the nodes on the line, one with its lexemes, one with its nodes in
canonical text. All lines of a console share one scope. An empty line has no answer; the line
`.exit` and the end of the input end the console.

* `Console.answer`: the answer to a line.
* `Console.transcript`: all that a console prints for an input.
-/

namespace Script

/-- What a run of the program prints, and the code that it ends with. -/
structure Output where
  code : Nat
  stdout : String
  stderr : String
deriving DecidableEq, Repr

/-- What a console answers with. -/
inductive ConsoleKind where
  | values
  | lexemes
  | nodes
deriving DecidableEq, Repr

/-- A console: its kind, its prompt, and the scope and store that its lines share. -/
structure Console where
  kind : ConsoleKind
  prompt : String
  scope : Ref .scope
  store : Store

namespace Console

/-- The prompt of a console unless another is asked for. -/
def defaultPrompt : String := ">> "

/-- A console with a new scope. -/
def start (kind : ConsoleKind) (prompt : String) : Console :=
  let (scope, store) := Store.empty.addRoot
  ⟨kind, prompt, scope, store⟩

/-! ### Answers -/

/-- A headline with the lines that explain it, each of them on a line of its own after a tab. -/
def explained (headline : String) (details : List String) : String :=
  unlines (headline :: match details with
    | [] => []
    | _ => ["\t" ++ joinWith "\n\t" details])

/-- The answer with values, which are printed as soon as they are known. -/
def answerValues (console : Console) (text : List Char) : String × Console :=
  let session : Session := ⟨console.scope, .ofStream (.ofChars text), console.store⟩
  let outcome := session.run Store.text
  let error := match outcome.error with
    | some error =>
      explained ("[at " ++ toString error.span.start ++ "] Parse error: " ++ error.cause.headline)
        error.cause.details
    | none => ""
  (unlines outcome.observed ++ error, { console with store := outcome.store })

/-- The answer with lexemes, up to the first error. -/
def answerReadings : List Reading → String
  | [] => ""
  | .ok lexeme :: rest =>
    lexeme.span.text ++ "\t" ++ lexeme.token.debug ++ "\n" ++ answerReadings rest
  | .error error :: _ =>
    explained ("[at " ++ toString error.span.start ++ "] Lexical error: " ++ error.cause.headline)
      error.cause.details

/-- The answer with at most `n` nodes, up to the first error. -/
def answerNodesWithin : Nat → ParserState → String
  | 0, _ => ""
  | n + 1, parser =>
    match Parse.nextNode maxNesting parser with
    | .ok (some node) parser => node.text ++ "\n" ++ answerNodesWithin n parser
    | .ok none _ => ""
    | .error error _ =>
      "Parse error: " ++ error.cause.headline ++ ".\n\t" ++ joinWith ";\n\t" error.cause.details
        ++ "\n"

/-- The answer with nodes. Each takes a lexeme, which bounds their number. -/
def answerNodes (text : List Char) : String :=
  let parser : ParserState := .ofStream (.ofChars text)
  answerNodesWithin (parser.lexemes.length + 1) parser

/-- The answer to a line that is not empty, and the console after it. -/
def answer (console : Console) (text : List Char) : String × Console :=
  match console.kind with
  | .values => console.answerValues text
  | .lexemes => (answerReadings (Cursor.ofChars text).readings, console)
  | .nodes => (answerNodes text, console)

/-! ### Lines -/

/-- Drops a character at the end, if it is the given one. -/
def dropLast (c : Char) (line : List Char) : List Char :=
  if line.getLast? = some c then line.dropLast else line

/-- A line without what ends it: a line feed, and a carriage return before it. -/
def content (line : List Char) : List Char :=
  dropLast '\r' (dropLast '\n' line)

/-- The line that ends a console. -/
def exitLine : List Char := ['.', 'e', 'x', 'i', 't']

/-- What a console does with a line: it answers and goes on, or it ends. -/
def turn (console : Console) (line : List Char) : Option (String × Console) :=
  let text := content line
  if text = [] then some ("", console)
  else if text = exitLine then none
  else some (console.answer text)

/-- The lines of an input, each with the line feed that ends it, of which the last may have
none. `before` holds the bytes of the line so far, the last one first. -/
def linesFrom (before : List UInt8) : List UInt8 → List (List UInt8)
  | [] => if before.isEmpty then [] else [before.reverse]
  | byte :: rest =>
    if byte = 10 then (byte :: before).reverse :: linesFrom [] rest
    else linesFrom (byte :: before) rest

/-- The message about a line that is no text. -/
def notText : String := "error: stream did not contain valid UTF-8\n"

/-- All that a console prints for the lines of an input. -/
def transcript (console : Console) : List (List UInt8) → Output
  | [] => ⟨0, console.prompt, ""⟩
  | line :: rest =>
    match Utf8.decode? line with
    | none => ⟨1, console.prompt, notText⟩
    | some chars =>
      match console.turn chars with
      | none => ⟨0, console.prompt, ""⟩
      | some (text, after) =>
        let later := transcript after rest
        { later with stdout := console.prompt ++ text ++ later.stdout }

end Console

end Script
