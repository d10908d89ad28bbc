import Script.Span
import Script.Text.Blank
import Script.Text.Columns

/-!
# Excerpts

An excerpt shows the lines of a source that a span lies on, with their numbers, marks the span, and
puts a message beside the mark. A span within one line is underlined; one that reaches over several
lines is marked by a line in the margin, from its start to its end. Of many lines only the first and
the last few are shown.

* `Excerpt.lines`: the lines of an excerpt.
-/

namespace Script.Excerpt

open Text (byteLength columns isBlank)

/-! ### Lines of the source -/

/-- A line of the source: its number, counted from one, the byte offset of its start, and its
characters without the line feed. -/
structure Line where
  number : Nat
  start : Nat
  chars : List Char
deriving DecidableEq, Repr

/-- The lines of a source from a line on, of which `before` has been read, the last character
first. A line ends at each line feed, so the last one may be empty. -/
def linesFrom (number start : Nat) (before : List Char) : List Char → List Line
  | [] => [⟨number, start, before.reverse⟩]
  | '\n' :: rest =>
    ⟨number, start, before.reverse⟩ ::
      linesFrom (number + 1) (start + byteLength before + 1) [] rest
  | c :: rest => linesFrom number start (c :: before) rest

/-- The lines of a source. -/
def sourceLines (source : List Char) : List Line :=
  linesFrom 1 0 [] source

/-- The line that an offset lies on: the last one that does not start after it. -/
def lineAt (lines : List Line) (offset : Nat) : Line :=
  ((lines.filter fun line => line.start ≤ offset).getLast?).getD ⟨1, 0, []⟩

/-- The number of characters of a line before an offset. -/
def charactersBefore (offset : Nat) : Nat → List Char → Nat
  | _, [] => 0
  | start, c :: rest =>
    if start < offset then charactersBefore offset (start + c.utf8Size) rest + 1 else 0

/-! ### Cells -/

/-- A character in its place on a line: the byte offset, the number of bytes, and the number of
columns. -/
structure Cell where
  char : Char
  offset : Nat
  bytes : Nat
  columns : Nat
deriving DecidableEq, Repr

/-- The distance of tab stops, in columns. -/
def tabStop : Nat := 4

/-- Characters in their places, from a byte offset and a column on. A tab reaches to the next
tab stop. -/
def cellsFrom (offset column : Nat) : List Char → List Cell
  | [] => []
  | c :: rest =>
    let width := if c = '\t' then tabStop - column % tabStop else columns c
    ⟨c, offset, c.utf8Size, width⟩ :: cellsFrom (offset + c.utf8Size) (column + width) rest

/-- The characters that end a line and are not shown. -/
def endsLine (c : Char) : Bool :=
  c == '\n' || c == '\r' || c == '\x00'

/-- The characters of a line without those that end it. -/
def Line.shown (line : Line) : List Char :=
  (line.chars.reverse.dropWhile endsLine).reverse

/-- The cells of a line without what ends it. -/
def Line.cells (line : Line) : List Cell :=
  cellsFrom line.start 0 line.shown

/-- One character several times. -/
def times (n : Nat) (c : Char) : String :=
  String.ofList (List.replicate n c)

/-- The text of cells, with spaces for tabs. -/
def textOf (cells : List Cell) : String :=
  String.join (cells.map fun cell =>
    if cell.char = '\t' then times cell.columns ' ' else cell.char.toString)

/-- The columns of the cells that begin before an offset. -/
def columnsBefore (offset : Nat) : List Cell → Nat
  | [] => 0
  | cell :: rest => if cell.offset < offset then cell.columns + columnsBefore offset rest else 0

/-- The underline of a span within one line. One place after the line can be marked as well, and
the span counts as at least one byte. -/
def underline (cells : List Cell) (lineStop : Nat) (span : Span) : String :=
  let start := span.start.toNat
  let stop := max span.stop.toNat (start + 1)
  let after : Cell := ⟨' ', lineStop, 1, 1⟩
  String.join ((cells ++ [after]).map fun cell =>
    if cell.offset < stop then
      times cell.columns (if start < cell.offset + cell.bytes then '^' else ' ')
    else "")

/-! ### Excerpts -/

/-- A number against the right margin of a column of the given width. -/
def rightAligned (width : Nat) (text : String) : String :=
  times (width - text.length) ' ' ++ text

/-- How many lines are shown after the first line of a span, and before its last. -/
def shownAfter : Nat := 3

/-- How many lines are shown right before the last line of a span. -/
def shownBefore : Nat := 1

/-- The lines between the first and the last of a span, or a gap where some are left out. A
single line is never left out. -/
def between (lines : List Line) : List (Option Line) :=
  if lines.length ≤ shownAfter + shownBefore + 1 then lines.map some
  else
    (lines.take shownAfter).map some ++ [none] ++
      (lines.drop (lines.length - shownBefore)).map some

/-- The lines of an excerpt: where the span starts, the source, the mark and the message. -/
def lines (path : String) (source : List Char) (span : Span) (message : String) : List String :=
  let all := sourceLines source
  let start := span.start.toNat
  let stop := span.stop.toNat
  let first := lineAt all start
  let last := lineAt all stop
  let width := (toString last.number).length
  let margin := times width ' '
  let column := charactersBefore start first.start first.chars + 1
  let place := margin ++ " ┌─ " ++ path ++ ":" ++ toString first.number ++ ":" ++ toString column
  let numbered (line : Line) (gutter : String) : String :=
    rightAligned width (toString line.number) ++ " │" ++ gutter ++ " " ++ textOf line.cells
  if first.number = last.number then
    let lineStop := first.start + byteLength first.shown
    [place, margin ++ " │", numbered first "",
      margin ++ " │ " ++ underline first.cells lineStop span ++ " " ++ message]
  else
    let lead := first.chars.take (column - 1)
    let opening :=
      if lead.all isBlank then [numbered first " ╭"]
      else
        [numbered first "  ",
          margin ++ " │ ╭" ++ times (columnsBefore (start + 1) first.cells) '─' ++ "^"]
    let inside := all.filter fun line => first.number < line.number && line.number < last.number
    let middle := (between inside).map fun
      | some line => numbered line " │"
      | none => margin ++ " · │"
    let closing :=
      margin ++ " │ ╰" ++ times (columnsBefore stop last.cells) '─' ++ "^ " ++ message
    [place, margin ++ " │  "] ++ opening ++ middle ++ [numbered last " │", closing]

end Script.Excerpt
