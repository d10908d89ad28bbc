import Script.Proofs.Lexeme.Comments
import Script.Proofs.Parser.LexicalErrors

/-!
# Comments are invisible

A parser passes the comments of a text and keeps their spans, and that is all that it ever makes of
them. With blanks in place of the comments that it came across it gives the same program with all
spans, or the same error at the same span, and stops in front of the same lexeme; only its list of
comments is empty then. A comment behind the lexeme at which it stops is not looked at, and stays.

* `Text.withBlanks`: a text with blanks in place of some spans;
* `Program.comments_invisible`: what is parsed of it.
-/

namespace Script

/-- A text with spaces in place of some spans, one for each byte. -/
def Text.withBlanks (spans : List Span) (text : String) : String :=
  String.ofList (blankOut spans 0 text.toList)

namespace Program

variable {text : String} {S : Puller}

/-- The comments that a parser came across are the first ones of its text. -/
theorem exists_comments_eq_append
    (h : S.Shows (Cursor.ofChars text.toList).readings
      (endState (ofStream maxNesting (.ofText text)))) :
    ∃ passed more, (LexemeStream.ofText text).comments = passed ++ more ∧
      passed.map (·.span) = S.comments ∧
      (endState (ofStream maxNesting (.ofText text))).commentsPassed more = [] := by
  obtain ⟨before, head, after, hreadings, hbefore, hcomments, hnone, hleft⟩ := exists_pulled_eq h
  have hstream : LexemeStream.ofText text = .ofReadings 0 (before ++ head :: after) :=
    congrArg (LexemeStream.ofReadings 0) hreadings
  obtain ⟨passed, more, hall, hspans, -, hmore⟩ :=
    LexemeStream.exists_passed hstream hbefore hnone (by rw [hleft])
  exact ⟨passed, more, hall, hspans.trans hcomments.symm, hmore⟩

/-- **Comments are invisible.** With spaces in place of every byte of the comments that the parser
came across, a text shorter than 4 GiB is parsed to the same program with all its spans, or to the
same error at the same span. The parser stops where it stopped before, and has come across no
comment. -/
theorem comments_invisible {text : String} (hlt : Text.byteLength text.toList < 2 ^ 32) :
    ∃ S S', pull text = some (parse text, S) ∧
      Utf8.encode (Text.withBlanks S.comments text).toList =
        (Utf8.encode text.toList).mapIdx (Text.blankByte S.comments) ∧
      pull (Text.withBlanks S.comments text) = some (parse text, S') ∧
      parse (Text.withBlanks S.comments text) = parse text ∧
      S'.current? = S.current? ∧ S'.failure? = S.failure? ∧ S'.lastStop = S.lastStop ∧
      S'.comments = [] := by
  obtain ⟨S, hpull, h⟩ := exists_pull text
  obtain ⟨S', hpull', h'⟩ := exists_pull (Text.withBlanks S.comments text)
  obtain ⟨passed, more, hcomments, hspans, hmore⟩ := exists_comments_eq_append h
  have hstream : LexemeStream.ofText (Text.withBlanks S.comments text) =
      { LexemeStream.ofText text with comments := more } := by
    rw [LexemeStream.ofText, Text.withBlanks, String.toList_ofList, ← hspans]
    exact LexemeStream.ofChars_blankOut hlt hcomments
  -- a parser of the stream does not look at the comments
  have hrun : ofStream maxNesting (.ofText (Text.withBlanks S.comments text)) =
      ofStream maxNesting (.ofText text) := by
    rw [hstream]
    rfl
  have hparse : parse (Text.withBlanks S.comments text) = parse text := by
    rw [parse, parse, hrun]
  have hmarks : ∀ span ∈ S.comments, Text.Marks text.toList span := by
    rw [← hspans]
    intro span hspan
    obtain ⟨comment, hmem, rfl⟩ := List.mem_map.1 hspan
    exact Cursor.marks_of_mem_comments hlt (.ofChars text.toList) ⟨[], rfl, rfl⟩ 0 comment
      (hcomments ▸ List.mem_append_left more hmem)
  have hcomments' := comments_eq_commentsPassed h'
  rw [hrun] at h' hcomments'
  rw [hstream] at hcomments'
  refine ⟨S, S', hpull, ?_, hparse ▸ hpull', hparse, h'.current_eq.trans h.current_eq.symm,
    h'.failure_eq.trans h.failure_eq.symm, h'.lastStop_eq.trans h.lastStop_eq.symm, ?_⟩
  · rw [Text.withBlanks, String.toList_ofList]
    exact Text.encode_blankOut hmarks
  · rw [hcomments']
    exact hmore

/-- A comment in front of an error, with a character of two bytes, which become two spaces. -/
theorem comments_invisible_accent :
    let text := "a // é\n) // b"
    Text.byteLength text.toList < 2 ^ 32 ∧ Text.withBlanks [⟨2, 7⟩] text = "a      \n) // b" ∧
    ∃ S S', pull text = some (parse text, S) ∧
      Utf8.encode (Text.withBlanks S.comments text).toList =
        (Utf8.encode text.toList).mapIdx (Text.blankByte S.comments) ∧
      pull (Text.withBlanks S.comments text) = some (parse text, S') ∧
      parse (Text.withBlanks S.comments text) = parse text ∧
      S'.current? = S.current? ∧ S'.failure? = S.failure? ∧ S'.lastStop = S.lastStop ∧
      S'.comments = [] := by
  intro text
  have hlt : Text.byteLength text.toList < 2 ^ 32 := by decide +kernel
  exact ⟨hlt, by decide +kernel, comments_invisible hlt⟩

/-- A comment that is recorded where the text begins is not the one that is blanked out. -/
theorem withBlanks_of_wrapped {text : String} {rest : List Char}
    (htext : text.toList = '1' :: ' ' :: rest) (hrest : Cursor.readings ⟨2, rest⟩ =
      [.ok ⟨.comment, ⟨0, 2⟩⟩, .ok ⟨.eof, ⟨2, 2⟩⟩]) :
    ∃ S, pull text = some (parse text, S) ∧ S.comments = [⟨0, 2⟩] ∧
      parse text = .ok ⟨[.expression (.integer 1 ⟨0, 1⟩)], 0, 1⟩ ∧
      parse (Text.withBlanks S.comments text) = .ok ⟨[], 2, 2⟩ := by
  -- the text begins with the literal, the comment wraps around to the same place
  have hreadings : (Cursor.ofChars text.toList).readings = [.ok ⟨.integer 1, ⟨0, 1⟩⟩,
      .ok ⟨.comment, ⟨0, 2⟩⟩, .ok ⟨.eof, ⟨2, 2⟩⟩] := by
    have hnext : (Cursor.ofChars ('1' :: ' ' :: rest)).next =
        (.ok ⟨.integer 1, ⟨0, 1⟩⟩, ⟨1, ' ' :: rest⟩) := rfl
    rw [htext, Cursor.readings_cons hnext (by rintro ⟨_, ⟨⟩⟩), Cursor.readings_blank (by decide),
      ← hrest]
    rfl
  obtain ⟨S, hpull, h⟩ := exists_pull text
  have hcomments : S.comments = [⟨0, 2⟩] := by
    rw [comments_eq_commentsPassed h, LexemeStream.ofText, LexemeStream.ofChars, hreadings]
    rfl
  refine ⟨S, hpull, hcomments, ?_, ?_⟩
  · rw [parse, LexemeStream.ofText, LexemeStream.ofChars, hreadings]
    rfl
  · -- what is blanked out are the first two bytes, with the literal
    have hblanks : Text.blankOut [⟨0, 2⟩] 0 ('1' :: ' ' :: rest) = ' ' :: ' ' :: rest := by
      show ' ' :: ' ' :: Text.blankOut [⟨0, 2⟩] 2 rest = ' ' :: ' ' :: rest
      rw [Text.blankOut_eq_self (List.forall_mem_singleton.2 (.inl (Nat.le_refl 2)))]
    have hspaces : Cursor.readings ⟨0, ' ' :: ' ' :: rest⟩ =
        [.ok ⟨.comment, ⟨0, 2⟩⟩, .ok ⟨.eof, ⟨2, 2⟩⟩] := by
      rw [Cursor.readings_blank (by decide), Cursor.readings_blank (by decide), ← hrest]
      rfl
    rw [hcomments, Text.withBlanks, htext, hblanks, parse, LexemeStream.ofText,
      LexemeStream.ofChars, String.toList_ofList, Cursor.ofChars, hspaces]
    rfl

/-- A comment that starts after 4 GiB is recorded as if it started at once. With spaces in its place
the integer at the beginning is gone. -/
theorem not_comments_invisible_long :
    let text := String.ofList ('1' :: List.replicate (2 ^ 32 - 1) ' ' ++ ['/', '/'])
    ∃ S, pull text = some (parse text, S) ∧ S.comments = [⟨0, 2⟩] ∧
      parse text = .ok ⟨[.expression (.integer 1 ⟨0, 1⟩)], 0, 1⟩ ∧
      parse (Text.withBlanks S.comments text) = .ok ⟨[], 2, 2⟩ := by
  have hreplicate : List.replicate (2 ^ 32 - 1) ' ' = ' ' :: List.replicate (2 ^ 32 - 2) ' ' :=
    List.replicate_succ (n := 2 ^ 32 - 2)
  have hrest : Cursor.readings ⟨2, List.replicate (2 ^ 32 - 2) ' ' ++ ['/', '/']⟩ =
      [.ok ⟨.comment, ⟨0, 2⟩⟩, .ok ⟨.eof, ⟨2, 2⟩⟩] := by
    rw [Cursor.readings_spaces]
    rfl
  refine withBlanks_of_wrapped ?_ hrest
  rw [String.toList_ofList, hreplicate, List.cons_append, List.cons_append]

end Program

end Script
