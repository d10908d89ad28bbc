import Mathlib.Logic.Basic
import Script.Proofs.Lexeme.Denotation

/-!
# Texts one after another

A text is read the same wherever it stands, with all spans moved. And nothing is read across the end
of a line but what has begun before it, a string or a string's escape: so a text that can be read up
to its end is read the same in front of a new line, and what comes after the new line is read as if
it stood alone.

* `Cursor.next_moved`: a reading of a text that has been moved;
* `Denotes.newline`: a slice denotes the same in front of a new line;
* `LexemeStream.ofChars_newline`: the stream of two texts with a new line between them.
-/

namespace Script

open Text (byteLength isBlank)
open Cursor (inWord)

/-! ### Moving spans -/

/-- A span with both of its offsets moved. -/
def Span.move (f : UInt32 → UInt32) (span : Span) : Span :=
  ⟨f span.start, f span.stop⟩

/-- A lexeme moved. -/
def Lexeme.move (f : UInt32 → UInt32) (x : Lexeme) : Lexeme :=
  ⟨x.token, x.span.move f⟩

/-- A lexical error moved. -/
def LexicalError.move (f : UInt32 → UInt32) (error : LexicalError) : LexicalError :=
  ⟨error.cause, error.span.move f⟩

/-- A reading moved. -/
def Reading.move (f : UInt32 → UInt32) : Reading → Reading
  | .ok x => .ok (x.move f)
  | .error error => .error (error.move f)

/-- The end of a stream moved. -/
def Ending.move (f : UInt32 → UInt32) : Ending → Ending
  | .eof offset => .eof (f offset)
  | .broken error => .broken (error.move f)

/-- A comment moved. -/
def Comment.move (f : UInt32 → UInt32) (comment : Comment) : Comment :=
  { comment with span := comment.span.move f }

namespace LexemeStream

/-- A stream with all of its offsets moved. -/
def move (f : UInt32 → UInt32) (stream : LexemeStream) : LexemeStream :=
  ⟨stream.lexemes.map (·.move f), stream.comments.map (·.move f), stream.ending.move f⟩

/-- One stream after another, which goes on where the first one ends. -/
def followedBy (stream next : LexemeStream) : LexemeStream :=
  ⟨stream.lexemes ++ next.lexemes,
    stream.comments.map (fun comment =>
      { comment with following := comment.following + next.lexemes.length }) ++ next.comments,
    next.ending⟩

end LexemeStream

section

variable (f g : UInt32 → UInt32)

@[simp] theorem Span.move_move (span : Span) : (span.move f).move g = span.move (g ∘ f) := rfl

@[simp] theorem Lexeme.move_move (x : Lexeme) : (x.move f).move g = x.move (g ∘ f) := rfl

@[simp] theorem Ending.move_move (ending : Ending) :
    (ending.move f).move g = ending.move (g ∘ f) := by
  cases ending <;> rfl

@[simp] theorem LexemeStream.move_move (stream : LexemeStream) :
    (stream.move f).move g = stream.move (g ∘ f) := by
  simp [move, Comment.move]

@[simp] theorem LexemeStream.move_followedBy (stream next : LexemeStream) :
    (stream.followedBy next).move f = (stream.move f).followedBy (next.move f) := by
  simp [move, followedBy, Comment.move]

end

/-! ### A text that has been moved -/

theorem LexemeStream.ofReadings_comment (offset : UInt32) (span : Span) (rest : List Reading) :
    ofReadings offset (.ok ⟨.comment, span⟩ :: rest) =
      { ofReadings span.stop rest with
        comments := ⟨span, (ofReadings span.stop rest).lexemes.length⟩ ::
          (ofReadings span.stop rest).comments } :=
  rfl

theorem Span.between_add (start stop distance : Nat) :
    between (start + distance) (stop + distance) =
      (between start stop).move (· + .ofNat distance) :=
  congrArg₂ Span.mk (UInt32.ofNat_add start distance) (UInt32.ofNat_add stop distance)

namespace Cursor

/-- **A reading of a text that has been moved** is the reading of the text, moved. -/
theorem next_moved (distance : Nat) {c c' : Cursor} {reading : Reading}
    (h : c.next = (reading, c')) :
    next ⟨c.offset + distance, c.rest⟩ =
      (reading.move (· + .ofNat distance), ⟨c'.offset + distance, c'.rest⟩) := by
  obtain ⟨gap, slice, what, hrest, hoffset, rfl, hreads⟩ := next_eq_iff.1 h
  refine next_eq_iff.2 ⟨gap, slice, what, hrest, ?_, ?_, hreads⟩
  · show c'.offset + distance = c.offset + distance + byteLength gap + byteLength slice
    omega
  · have hstart : c.offset + distance + byteLength gap = c.offset + byteLength gap + distance := by
      omega
    rw [hstart, Span.between_add]
    cases what <;> rfl

/-- The stream of a text that has been moved is the stream of the text, moved. -/
theorem ofReadings_moved (distance : Nat) (start start' : UInt32) (c : Cursor) :
    LexemeStream.ofReadings start (readings ⟨c.offset + distance, c.rest⟩) =
      (LexemeStream.ofReadings start' c.readings).move (· + .ofNat distance) := by
  rcases hnext : c.next with ⟨reading, c'⟩
  rw [ofReadings_readings start (next_moved distance hnext), ofReadings_readings start' hnext]
  rcases reading with error | ⟨token, span⟩
  · rfl
  by_cases heof : token = .eof
  · subst heof
    rfl
  have hlt := length_next_lt_of_ok hnext heof
  have ih := ofReadings_moved distance (span.stop + .ofNat distance) span.stop c'
  rw [Reading.move, Lexeme.move, Span.move]
  by_cases hcomment : token = .comment
  · subst hcomment
    rw [LexemeStream.ofReadings_comment, LexemeStream.ofReadings_comment, ih]
    simp [LexemeStream.move, Comment.move, Span.move]
  · rw [LexemeStream.ofReadings_cons _ heof hcomment, LexemeStream.ofReadings_cons _ heof hcomment,
      ih]
    rfl
termination_by c.rest.length

end Cursor

/-! ### In front of a new line -/

/-- What begins a text of several lines and holds no new line begins the first line. -/
theorem prefix_of_prefix_newline {piece line more : List Char} (hpiece : '\n' ∉ piece)
    (h : piece <+: line ++ '\n' :: more) : piece <+: line := by
  rcases List.prefix_or_prefix_of_prefix h (List.prefix_append line _) with hline | ⟨after, rfl⟩
  · exact hline
  · cases after with
    | nil => exact ⟨[], by simp⟩
    | cons c after =>
      -- the piece would go on with the new line
      have hc := (List.prefix_append_right_inj line).1 h
      obtain ⟨rfl, -⟩ := List.cons_prefix_cons.1 hc
      exact absurd (by simp) hpiece

theorem head?_newline {p : Char → Prop} {rest more : List Char} (hrest : ∀ c ∈ rest.head?, p c)
    (hnewline : p '\n') : ∀ c ∈ (rest ++ '\n' :: more).head?, p c := by
  cases rest with
  | nil =>
    rintro _ ⟨⟩
    exact hnewline
  | cons x rest => exact hrest

/-- **A slice denotes the same in front of a new line.** Only what ends with the text does not. -/
theorem Denotes.newline {slice rest : List Char} {token : Token}
    (h : Denotes slice rest (.ok token)) (heof : token ≠ .eof) (more : List Char) :
    Denotes slice (rest ++ '\n' :: more) (.ok token) := by
  cases h with
  | keyword word hrest => exact .keyword word (head?_newline hrest rfl)
  | name hslice hkeyword hrest => exact .name hslice hkeyword (head?_newline hrest rfl)
  | integer hne hslice hrest hvalue => exact .integer hne hslice (head?_newline hrest rfl) hvalue
  | string hbody => exact .string hbody
  | comment hline hrest => exact .comment hline (head?_newline hrest rfl)
  | symbol sign hcomment hlongest =>
    -- neither the signs of a comment nor those of any symbol hold a new line
    refine .symbol sign (fun hslashes => hcomment ?_) fun other hother => hlongest other ?_
    · rw [← List.append_assoc] at hslashes
      exact prefix_of_prefix_newline (by decide) hslashes
    · rw [← List.append_assoc] at hother
      exact prefix_of_prefix_newline (by cases other <;> decide) hother
  | eof => exact absurd rfl heof

namespace Cursor

/-- A lexeme in front of a new line is read the same. -/
theorem next_newline {c c' : Cursor} {x : Lexeme} (h : c.next = (.ok x, c'))
    (heof : x.token ≠ .eof) (more : List Char) :
    next ⟨c.offset, c.rest ++ '\n' :: more⟩ = (.ok x, ⟨c'.offset, c'.rest ++ '\n' :: more⟩) := by
  obtain ⟨gap, slice, what, hrest, hoffset, hreading, hreads⟩ := next_eq_iff.1 h
  refine next_eq_iff.2 ⟨gap, slice, what, ?_, hoffset, hreading, ?_⟩
  · rw [hrest, List.append_assoc]
  cases hreads with
  | denotes hgap hslice =>
    cases what with
    | error cause => cases hreading
    | ok token =>
      cases hreading
      exact .denotes hgap (hslice.newline heof more)
  | unknownEscape => cases hreading

/-- At the end of a text with a new line after it, the next line is read. -/
theorem next_newline_of_eof {c c' : Cursor} {span : Span} (h : c.next = (.ok ⟨.eof, span⟩, c'))
    (more : List Char) :
    next ⟨c.offset, c.rest ++ '\n' :: more⟩ =
      next ⟨c.offset + (byteLength c.rest + 1), more⟩ := by
  obtain ⟨gap, slice, what, hrest, -, hreading, hreads⟩ := next_eq_iff.1 h
  have hwhat : what = .ok .eof := by
    cases what with
    | error cause => cases hreading
    | ok token => exact congrArg (Except.ok ·.token) (Except.ok.inj hreading).symm
  subst hwhat
  cases hreads with
  | denotes hgap h =>
    generalize hrest' : c'.rest = rest at h hrest
    cases h
    rw [hrest, List.append_nil, List.append_nil, next_blanks hgap,
      next_blank (b := '\n') (by decide), Nat.add_assoc]
    rfl

/-- A reading moves on by the bytes that it takes. -/
theorem byteLength_rest_next {c c' : Cursor} {reading : Reading} (h : c.next = (reading, c')) :
    c'.offset + (byteLength c'.rest + 1) = c.offset + (byteLength c.rest + 1) := by
  obtain ⟨gap, slice, what, hrest, hoffset, -, -⟩ := next_eq_iff.1 h
  rw [hrest, hoffset, Text.byteLength_append, Text.byteLength_append]
  omega

/-- The stream of a text up to its end goes on with what comes after a new line. -/
theorem ofReadings_newline {start stop : UInt32} {c : Cursor}
    (h : (LexemeStream.ofReadings start c.readings).ending = .eof stop) (start' : UInt32)
    (more : List Char) :
    LexemeStream.ofReadings start (readings ⟨c.offset, c.rest ++ '\n' :: more⟩) =
      (LexemeStream.ofReadings start c.readings).followedBy
        (LexemeStream.ofReadings start'
          (readings ⟨c.offset + (byteLength c.rest + 1), more⟩)) := by
  rcases hnext : c.next with ⟨reading, c'⟩
  rw [ofReadings_readings start hnext] at h ⊢
  rcases reading with error | ⟨token, span⟩
  · cases h
  by_cases heof : token = .eof
  · subst heof
    rcases hmore : next ⟨c.offset + (byteLength c.rest + 1), more⟩ with ⟨reading, c''⟩
    rw [ofReadings_readings start ((next_newline_of_eof hnext more).trans hmore),
      ofReadings_readings start' hmore]
    cases reading <;> rfl
  have hlt := length_next_lt_of_ok hnext heof
  have hlength := byteLength_rest_next hnext
  rw [ofReadings_readings start (next_newline hnext heof more)]
  by_cases hcomment : token = .comment
  · subst hcomment
    rw [LexemeStream.ofReadings_comment] at h ⊢
    rw [LexemeStream.ofReadings_comment, ofReadings_newline h start' more, hlength]
    simp [LexemeStream.followedBy]
  · rw [LexemeStream.ofReadings_cons _ heof hcomment] at h ⊢
    rw [LexemeStream.ofReadings_cons _ heof hcomment, ofReadings_newline h start' more, hlength]
    rfl
termination_by c.rest.length

end Cursor

namespace LexemeStream

theorem ofChars_moved (cs : List Char) (start : UInt32) (offset : Nat) :
    ofReadings start (Cursor.readings ⟨offset, cs⟩) =
      (ofChars cs).move (· + .ofNat offset) := by
  have h := Cursor.ofReadings_moved offset start 0 (Cursor.ofChars cs)
  rw [Cursor.ofChars, Nat.zero_add] at h
  exact h

/-- **The stream of two texts with a new line between them**, of which the first can be read up to
its end: the lexemes of the one, and then those of the other, moved. -/
theorem ofChars_newline {cs : List Char} {stop : UInt32} (h : (ofChars cs).ending = .eof stop)
    (more : List Char) :
    ofChars (cs ++ '\n' :: more) =
      (ofChars cs).followedBy ((ofChars more).move (· + .ofNat (byteLength cs + 1))) := by
  have hstream := Cursor.ofReadings_newline h 0 more
  dsimp only [Cursor.ofChars] at hstream
  rw [Nat.zero_add, ofChars_moved more] at hstream
  exact hstream

end LexemeStream

end Script
