import Script.Proofs.Parser.Blame
import Script.Proofs.Parser.Pulling.Parsers

/-!
# Lexical errors surface

A parser that meets a lexical error has nothing in front of it any more, as if the text were over.
Nevertheless the error is not lost: the parser pulls nothing after it, whatever it is reading, and
never comes out with a program. It comes out with the lexical error itself, or with an error of
syntax that it has found in front of it.

* `Program.Surfaces`: what a parser that pulls shows of the lexical errors of a text;
* `Program.lexical_errors_surface`: every text is parsed like this, to an end.
-/

namespace Script.Program

/-- **The lexical errors of a text surface** where a parser has come out with some outcome and has
pulled some of the readings of the text. -/
structure Surfaces (text : String) (outcome : Except ParseError Program) (S : Puller) : Prop where
  /-- The readings are pulled in their order. -/
  inOrder : S.pulled <+: (Cursor.ofChars text.toList).readings
  /-- Nothing is pulled after a lexical error or the end of the text. -/
  inTime : ∀ r ∈ S.pulled.dropLast, GoesOn r
  /-- The comments that were pulled are kept in their order. -/
  comments_eq : S.comments = commentSpans S.pulled
  /-- A program is read from all of its text, in which there is no lexical error. -/
  ok : ∀ program, outcome = .ok program → S.pulled = (Cursor.ofChars text.toList).readings ∧
    ∀ r ∈ (Cursor.ofChars text.toList).readings, ∃ x, r = .ok x
  /-- The first lexical error is told, or else an error of syntax in front of it. In a text shorter
  than 4 GiB the span of this error ends before the lexical error starts. -/
  error : ∀ before lexicalError after,
    (Cursor.ofChars text.toList).readings = before ++ .error lexicalError :: after →
    (∀ r ∈ before, ∃ x, r = .ok x) → ∃ error, outcome = .error error ∧
      (error = ⟨.lexical lexicalError.cause, lexicalError.span⟩ ∨
        error.cause.InLexemes ∧ (Text.byteLength text.toList < 2 ^ 32 →
          error.span.stop ≤ lexicalError.span.start))

variable {text : String} {S : Puller}

/-- The readings of a text begin with its lexical error behind lexemes alone, if it has one. -/
theorem ending_of_readings {before after : List Reading} {lexicalError : LexicalError}
    (hreadings : (Cursor.ofChars text.toList).readings = before ++ .error lexicalError :: after)
    (hbefore : ∀ r ∈ before, GoesOn r) :
    (LexemeStream.ofText text).ending = .broken lexicalError := by
  obtain ⟨offset, l, passed, hstream, -⟩ :=
    LexemeStream.exists_ofReadings_append 0 hbefore (.error lexicalError :: after)
  rw [← hreadings] at hstream
  exact congrArg LexemeStream.ending hstream

/-- A program has pulled all of its text. -/
theorem pulled_of_ok {p : Program} {s : ParserState}
    (h : S.Shows (Cursor.ofChars text.toList).readings s)
    (hp : ofStream maxNesting (.ofText text) = .ok p s) :
    S.pulled = (Cursor.ofChars text.toList).readings ∧
      ∀ r ∈ (Cursor.ofChars text.toList).readings, ∃ x, r = .ok x := by
  obtain ⟨before, after, hreadings, hpulled, hbefore⟩ := h.pulled
  have hcomes : s.Comes .eof := Parse.comes_eof_of_program hp
  -- the end of the text is the last reading of all
  obtain ⟨span, hlast⟩ : Cursor.IsEof (upcoming s.lexemes s.ending) := by
    obtain ⟨x, hx, htoken⟩ := Option.map_eq_some_iff.1 (beq_iff_eq.1 hcomes)
    have hnil := h.lexemes_eq_nil (by simp [hx, htoken])
    rw [ParserState.lookahead?, hnil] at hx
    rw [hnil]
    cases hending : s.ending with
    | eof offset => exact ⟨_, rfl⟩
    | broken error =>
      rw [hending] at hx
      cases hx
  rw [hpulled, hlast, List.append_assoc, List.singleton_append] at hreadings
  rw [Cursor.eq_nil_of_isEof ⟨span, rfl⟩ _ hreadings] at hreadings
  rw [hpulled, hlast, hreadings]
  refine ⟨rfl, List.forall_mem_append.2 ⟨?_, List.forall_mem_singleton.2 ⟨_, rfl⟩⟩⟩
  exact fun r hr => (hbefore r hr).imp fun _ hx => hx.1

/-- The last reading that is pulled is no comment, so all comments stand in front of it. From it
on come the lexemes that the parser of the stream has left. -/
theorem exists_pulled_eq
    (h : S.Shows (Cursor.ofChars text.toList).readings
      (endState (ofStream maxNesting (.ofText text)))) :
    ∃ before head after, (Cursor.ofChars text.toList).readings = before ++ head :: after ∧
      (∀ r ∈ before, GoesOn r) ∧ S.comments = commentSpans before ∧ commentSpan? head = none ∧
      (LexemeStream.ofReadings 0 (head :: after)).lexemes =
        (endState (ofStream maxNesting (.ofText text))).lexemes := by
  obtain ⟨l, hl⟩ := Parse.exists_consumes_program maxNesting (.ofStream (.ofText text))
  have hlexemes : (LexemeStream.ofText text).lexemes =
      l ++ (endState (ofStream maxNesting (.ofText text))).lexemes := hl.lexemes_eq
  -- the reading that was pulled last is the one that comes up next
  obtain ⟨before, after, hreadings, hpulled, hbefore⟩ := h.pulled
  have hcomments := h.comments_eq
  have hahead := h.ahead
  generalize endState (ofStream maxNesting (.ofText text)) = s at *
  have hproper : ∀ x ∈ s.lexemes, x.token ≠ .eof ∧ x.token ≠ .comment := by
    intro x hx
    have hmem : x ∈ (LexemeStream.ofText text).lexemes := by
      rw [hlexemes]
      exact List.mem_append_right l hx
    exact (LexemeStream.mem_of_mem_ofReadings hmem).2
  have hnone : commentSpan? (upcoming s.lexemes s.ending) = none :=
    commentSpan?_upcoming s.ending fun x hx => (hproper x hx).2
  -- what has not been pulled yet gives the lexemes behind that one
  have hleft : (LexemeStream.ofReadings 0 (upcoming s.lexemes s.ending :: after)).lexemes =
      s.lexemes := by
    cases hs : s.lexemes with
    | nil => cases s.ending <;> rfl
    | cons x rest =>
      obtain ⟨heof, hcomment⟩ := hproper x (by rw [hs]; exact List.mem_cons_self)
      obtain ⟨hrest, -, -, offset, hlexemes, -⟩ := hahead x rest hs
      obtain rfl := List.append_cancel_left (hreadings.symm.trans hrest)
      obtain ⟨token, span⟩ := x
      obtain ⟨reading, more, hmore⟩ := List.exists_cons_of_ne_nil S.lexer.readings_ne_nil
      rw [upcoming, LexemeStream.ofReadings_cons 0 heof hcomment, hmore,
        LexemeStream.ofReadings_start span.stop offset, ← hmore, hlexemes]
  rw [hpulled, List.append_assoc, List.singleton_append] at hreadings
  refine ⟨before, _, after, hreadings, hbefore, ?_, hnone, hleft⟩
  rw [hcomments, hpulled, commentSpans_append, commentSpans, commentSpans,
    List.filterMap_cons_none hnone, List.filterMap_nil, List.append_nil]

/-- The comments that are pulled are those that the parser of the stream has passed. -/
theorem comments_eq_commentsPassed
    (h : S.Shows (Cursor.ofChars text.toList).readings
      (endState (ofStream maxNesting (.ofText text)))) :
    S.comments = (endState (ofStream maxNesting (.ofText text))).commentsPassed
      (LexemeStream.ofText text).comments := by
  obtain ⟨before, head, after, hreadings, hbefore, hcomments, hnone, hleft⟩ := exists_pulled_eq h
  have hstream : LexemeStream.ofText text = .ofReadings 0 (before ++ head :: after) :=
    congrArg (LexemeStream.ofReadings 0) hreadings
  rw [hcomments, LexemeStream.commentsPassed_eq hstream hbefore hnone (by rw [hleft])]

/-- A parser that pulls comes to an end with what the parser of the stream gives, and stands
where this one does. -/
theorem exists_pull (text : String) :
    ∃ S, pull text = some (parse text, S) ∧
      S.Shows (Cursor.ofChars text.toList).readings
        (endState (ofStream maxNesting (.ofText text))) := by
  obtain ⟨S₀, hstep, hshows₀, hdepth₀⟩ := Puller.exists_step_ofText text
  obtain ⟨S, hpull, h⟩ := (Pull.agrees_program S₀ _ hshows₀ hdepth₀).exists_puller
  refine ⟨S, ?_, h⟩
  rw [pull, hstep, parse_eq_withoutState]
  exact hpull

/-- **Every text is parsed to an end**, by pulling its readings one by one: neither is a lexical
error lost on the way, nor is anything pulled after it. -/
theorem lexical_errors_surface (text : String) :
    ∃ S, pull text = some (parse text, S) ∧
      Surfaces text (parse text) S ∧
      S.comments = (endState (ofStream maxNesting (.ofText text))).commentsPassed
        (LexemeStream.ofText text).comments := by
  obtain ⟨S, hpull, h⟩ := exists_pull text
  obtain ⟨before, after, hreadings, hpulled, hbefore⟩ := h.pulled
  have hok (p : Program) (hp : parse text = .ok p) :
      S.pulled = (Cursor.ofChars text.toList).readings ∧
        ∀ r ∈ (Cursor.ofChars text.toList).readings, ∃ x, r = .ok x := by
    rw [parse_eq_withoutState] at hp
    cases hrun : ofStream maxNesting (.ofText text) with
    | ok p' s =>
      rw [hrun] at h
      exact pulled_of_ok h hrun
    | error error s =>
      rw [hrun] at hp
      cases hp
  refine ⟨S, hpull, ⟨⟨after, hreadings.symm⟩, ?_, h.comments_eq, hok, ?_⟩,
    comments_eq_commentsPassed h⟩
  · rw [hpulled, List.dropLast_concat]
    exact hbefore
  · intro before lexicalError after hsplit hlexemes
    -- an error that comes before the end of the lexemes ends the stream, and no program is found
    have hending := ending_of_readings hsplit (Cursor.goesOn_of_append _ hsplit hlexemes)
    cases herror : parse text with
    | ok p =>
      obtain ⟨x, hx⟩ := (hok p herror).2 (.error lexicalError) (by rw [hsplit]; simp)
      cases hx
    | error error => exact ⟨error, rfl, lexical_or_before_of_parse hending herror⟩

/-- Behind 4 GiB of spaces but two, an error of syntax ends at the greatest offset, and the first
lexical error, which comes after it, starts at the least. -/
theorem not_in_front_of_lexical_error_long :
    let text := String.ofList (List.replicate (2 ^ 32 - 2) ' ' ++ [')', ' ', '$'])
    let found : ParseError := ⟨.expectedExpression (.symbol .rightParen), 4294967294, 4294967295⟩
    let lexicalError : LexicalError := ⟨.unrecognized '$', 0, 1⟩
    (Cursor.ofChars text.toList).readings = [.ok ⟨.symbol .rightParen, ⟨4294967294, 4294967295⟩⟩,
        .error lexicalError, .ok ⟨.eof, ⟨1, 1⟩⟩] ∧
      parse text = .error found ∧ ¬ found.span.stop ≤ lexicalError.span.start := by
  intro text found lexicalError
  have hreadings : (Cursor.ofChars text.toList).readings =
      [.ok ⟨.symbol .rightParen, ⟨4294967294, 4294967295⟩⟩, .error lexicalError,
        .ok ⟨.eof, ⟨1, 1⟩⟩] := by
    rw [String.toList_ofList, Cursor.ofChars, Cursor.readings_spaces]
    rfl
  refine ⟨hreadings, ?_, by decide⟩
  rw [parse, LexemeStream.ofText, LexemeStream.ofChars, hreadings]
  rfl

/-- Nothing has to follow an `if`, but the text has to be read on. -/
example : parse "if a { b } $" = .error ⟨.lexical (.unrecognized '$'), 11, 12⟩ :=
  rfl

end Script.Program
