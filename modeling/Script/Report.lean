import Script.File
import Script.Report.Excerpt

/-!
# Reports of failure

A failure is reported as a title, an excerpt of the source with a label at the place at fault, and
lines that explain it. A file that cannot be read has no excerpt.

* `Failure.label`: the place that is marked, and its message.
* `Failure.report`: the whole report.
-/

namespace Script

/-- Lines as text, each ended by a line feed. -/
def unlines (lines : List String) : String :=
  String.join (lines.map (· ++ "\n"))

/-- The place that an error of syntax is marked at. A text that ends too early is marked at its
end. -/
def ParseError.label (error : ParseError) (source : List Char) : Span :=
  match error.cause with
  | .unexpectedEnd => .point (Text.byteLength source)
  | _ => error.span

namespace Failure

/-- The title of a report. -/
def title : Failure → String
  | syntaxError _ _ => "Syntax error"
  | runtimeError _ error => error.cause.headline
  | unreadable _ => "Standard IO error"

/-- The lines that explain a failure, below the excerpt if there is one. -/
def notes : Failure → List String
  | syntaxError _ error => error.cause.details
  | runtimeError _ _ => []
  | unreadable fault => [fault.message]

/-- The source and the span of it that is marked, with the message beside the mark. -/
def label? : Failure → Option (List Char × Span × String)
  | syntaxError source error => some (source, error.label source, error.cause.headline)
  | runtimeError source error => some (source, error.span, error.cause.message)
  | unreadable _ => none

/-- The report of a failure to run the file of a path. -/
def report (path : String) (failure : Failure) : String :=
  let excerpt := match failure.label? with
    | some (source, span, message) => Excerpt.lines path source span message
    | none => []
  unlines (("error: " ++ failure.title) :: excerpt ++ [""] ++ failure.notes ++ [""])

end Failure

end Script
