import Script.CommandLine

/-!
# The program

Reads arguments, files and standard input, and prints what the library gives.
-/

namespace Script.CommandLine

/-- The code of the system for reading a directory. -/
def directoryCode : UInt32 := 21

/-- What is wrong with the type of a file, by the code of the system. -/
def wrongType (code : UInt32) : ReadFault :=
  if code = directoryCode then .isADirectory else .notADirectory

/-- The code of the system for a name that is too long. -/
def longNameCode : UInt32 := 36

/-- What is wrong with the path of a file, by the code of the system. -/
def wrongPath (code : UInt32) : ReadFault :=
  if code = longNameCode then .invalidName else .invalidInput

/-- The content of a file, or why it cannot be had. -/
def readContent (path : String) : IO (Except ReadFault (List UInt8)) := do
  try
    let bytes ← IO.FS.readBinFile path
    return .ok bytes.toList
  catch
    | .noFileOrDirectory .. => return .error .notFound
    | .inappropriateType _ code _ => return .error (wrongType code)
    | .invalidArgument _ code _ => return .error (wrongPath code)
    | .permissionDenied .. => return .error .permissionDenied
    | _ => return .error .other

/-- Reads the rest of a line, of which `before` holds the bytes so far, the last one first. At the
end of the input there are none. -/
partial def readLine (stdin : IO.FS.Stream) (before : List UInt8) : IO (List UInt8) := do
  match (← stdin.read 1).toList with
  | [] => return before.reverse
  | byte :: _ =>
    if byte = 10 then return (byte :: before).reverse
    else readLine stdin (byte :: before)

/-- Runs a console line by line until it ends. -/
partial def converse (stdin : IO.FS.Stream) (console : Console) : IO UInt32 := do
  let stdout ← IO.getStdout
  stdout.putStr console.prompt
  stdout.flush
  let line ← readLine stdin []
  if line.isEmpty then return 0
  match Utf8.decode? line with
  | none =>
    IO.eprint Console.notText
    return 1
  | some text =>
    match console.turn text with
    | none => return 0
    | some (answer, after) =>
      stdout.putStr answer
      converse stdin after

/-- Runs a file and tells how long it took. -/
def runFile (path : String) : IO UInt32 := do
  IO.eprint (running path)
  let started ← IO.monoMsNow
  let content ← readContent path
  let (scope, store) := Store.empty.addRoot
  let (result, store) := File.run content scope store
  let output := fileOutput path
    (seconds ((← IO.monoMsNow) - started)) store result
  IO.eprint output.stderr
  IO.print output.stdout
  return output.code.toUInt32

/-- Does what the arguments ask for, and gives the code to end with. -/
def run (arguments : List String) : IO UInt32 := do
  match parse arguments with
  | .version =>
    IO.print version
    return 0
  | .help =>
    IO.print usage
    return 0
  | .refused =>
    IO.eprint usage
    return refusedCode.toUInt32
  | .execute (.console kind prompt) => converse (← IO.getStdin) (Console.start kind prompt)
  | .execute (.run path) => runFile path

end Script.CommandLine

/-- The program. -/
def main (arguments : List String) : IO UInt32 :=
  Script.CommandLine.run arguments
