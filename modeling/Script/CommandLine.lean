import Script.Console

/-!
# The command line

The arguments of the program name a console or a file to run; without any, the console that answers
with values is meant. Arguments that make no sense are refused as a whole.

* `CommandLine.parse`: what the arguments ask for.
* `CommandLine.execute`: what the program prints.
-/

namespace Script.CommandLine

/-! ### Arguments -/

/-- What to do. -/
inductive Command where
  | console (kind : ConsoleKind) (prompt : String)
  | run (path : String)
deriving DecidableEq, Repr

/-- What the arguments ask for. -/
inductive Request where
  | version
  | help
  | execute (command : Command)
  | refused
deriving DecidableEq, Repr

/-- The options of a command as far as they have been read. -/
structure Options where
  verbose : Bool
  prompt : Option String
  path : Option String
deriving DecidableEq, Repr

/-- A command by its word, and which options it takes. -/
inductive Word where
  | repl
  | run
  | rlpl
  | rppl
deriving DecidableEq, Repr

/-- The command of a word. -/
def Word.ofText? : String → Option Word
  | "repl" => some repl
  | "run" => some run
  | "rlpl" => some rlpl
  | "rppl" => some rppl
  | _ => none

/-- An argument that is no option: it does not begin with a hyphen, or is a hyphen alone. -/
def isPlain (argument : String) : Bool :=
  match argument.toList with
  | ['-'] => true
  | '-' :: _ => false
  | _ => true

/-- The text after the equals sign of an option that is given in one argument with its value. -/
def attached? (option argument : String) : Option String :=
  let lead := option.toList ++ ['=']
  if lead.isPrefixOf argument.toList then some (String.ofList (argument.toList.drop lead.length))
  else none

/-- Adds a path to the options of `run`, which takes one that is not empty. -/
def Options.addPath (options : Options) (word : Word) (path : String) : Option Options :=
  if word = .run && options.path.isNone && path ≠ "" then some { options with path := some path }
  else none

/-- Adds a prompt to the options of `repl`, which takes one. -/
def Options.addPrompt (options : Options) (word : Word) (prompt : String) : Option Options :=
  if word = .repl && options.prompt.isNone then some { options with prompt := some prompt }
  else none

/-- The request of a command with all its options. -/
def Options.request (options : Options) : Word → Request
  | .repl => .execute (.console .values (options.prompt.getD Console.defaultPrompt))
  | .rlpl => .execute (.console .lexemes Console.defaultPrompt)
  | .rppl => .execute (.console .nodes Console.defaultPrompt)
  | .run =>
    match options.path with
    | some path => .execute (.run path)
    | none => .refused

/-- Arguments after a double hyphen, none of which is an option. -/
def parsePlain (word : Word) (options : Options) : List String → Request
  | [] => options.request word
  | argument :: rest =>
    match options.addPath word argument with
    | some options => parsePlain word options rest
    | none => .refused

/-- Arguments after the word of a command. -/
def parseOptions (word : Word) (options : Options) : List String → Request
  | [] => options.request word
  | "--" :: rest => parsePlain word options rest
  | "-h" :: _ => .help
  | "--help" :: _ => .help
  | "--prompt" :: prompt :: rest =>
    if isPlain prompt then
      match options.addPrompt word prompt with
      | some options => parseOptions word options rest
      | none => .refused
    else .refused
  | argument :: rest =>
    if argument = "-v" || argument = "--verbose" then
      if options.verbose then .refused
      else parseOptions word { options with verbose := true } rest
    else
      match attached? "--prompt" argument with
      | some prompt =>
        match options.addPrompt word prompt with
        | some options => parseOptions word options rest
        | none => .refused
      | none =>
        if isPlain argument then
          match options.addPath word argument with
          | some options => parseOptions word options rest
          | none => .refused
        else .refused

/-- What asking for help gives, of the program or of one command. Help is a command too, though
it takes nothing that help could be given of. -/
def parseHelp : List String → Request
  | [] => .help
  | [topic] => if topic = "help" || (Word.ofText? topic).isSome then .help else .refused
  | _ => .refused

/-- Arguments before the word of a command, where being verbose may have been asked for. After a
double hyphen no command can follow. -/
def parseFrom (verbose : Bool) : List String → Request
  | [] | ["--"] => .execute (.console .values Console.defaultPrompt)
  | argument :: rest =>
    if argument = "-V" || argument = "--version" then .version
    else if argument = "-h" || argument = "--help" then .help
    else if argument = "help" then parseHelp rest
    else if argument = "-v" || argument = "--verbose" then
      if verbose then .refused else parseFrom true rest
    else
      match Word.ofText? argument with
      | some word => parseOptions word ⟨false, none, none⟩ rest
      | none => .refused

/-- Arguments with each letter of joined options on its own: `-vV` stands for `-v` and `-V`.
Nothing after a double hyphen is an option. -/
def separate : List String → List String
  | [] => []
  | "--" :: rest => "--" :: rest
  | argument :: rest =>
    match argument.toList with
    | '-' :: '-' :: _ => argument :: separate rest
    | '-' :: letter :: letters =>
      (letter :: letters).map (fun l => String.ofList ['-', l]) ++ separate rest
    | _ => argument :: separate rest

/-- What the arguments ask for. -/
def parse (arguments : List String) : Request :=
  parseFrom false (separate arguments)

/-! ### Output -/

/-- The name and version of the program. -/
def version : String := "monkey 0.1.0\n"

/-- How the program is called. -/
def usage : String :=
  "Usage: monkey [-v] [repl [--prompt <PROMPT>] | run <PATH> | rlpl | rppl]\n"

/-- The code that refused arguments end with. -/
def refusedCode : Nat := 2

/-- What is told before a file is run. -/
def running (path : String) : String := "    Running " ++ path ++ "\n"

/-- What is told after a file has been run, in a time that is given as text. -/
def finished (elapsed : String) : String := "   Finished in " ++ elapsed ++ "\n"

/-- A time in seconds, with two decimal places, from one in milliseconds. -/
def seconds (milliseconds : Nat) : String :=
  let hundredths := (milliseconds + 5) / 10
  let digits (n : Nat) : String := if n < 10 then "0" ++ toString n else toString n
  toString (hundredths / 100) ++ "." ++ digits (hundredths % 100) ++ "s"

/-- What is printed after a file has been run: its value unless that is null, or the report of
its failure. -/
def fileOutput (path elapsed : String) (store : Store) : Except Failure Value → Output
  | .ok value =>
    let text := if value = .null then "" else store.text value ++ "\n"
    ⟨0, text, finished elapsed⟩
  | .error failure => ⟨1, "", failure.report path⟩

/-- All that the program prints for its arguments and input. Files are given by their paths. -/
def execute (arguments : List String) (stdin : List UInt8)
    (file : String → Except ReadFault (List UInt8)) (elapsed : String) : Output :=
  match parse arguments with
  | .version => ⟨0, version, ""⟩
  | .help => ⟨0, usage, ""⟩
  | .refused => ⟨refusedCode, "", usage⟩
  | .execute (.console kind prompt) =>
    (Console.start kind prompt).transcript (Console.linesFrom [] stdin)
  | .execute (.run path) =>
    let (scope, store) := Store.empty.addRoot
    let (result, store) := File.run (file path) scope store
    let output := fileOutput path elapsed store result
    { output with stderr := running path ++ output.stderr }

end Script.CommandLine
