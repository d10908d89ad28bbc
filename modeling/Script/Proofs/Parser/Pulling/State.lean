import Script.Proofs.Lexeme.Prefix
import Script.Proofs.Parser.Pulling

/-!
# What a pulling parser has in front of it

While it goes on, a parser that pulls stands where a parser of the stream stands: the reading that
it pulled last is the lookahead of the stream, and what the lexer has left to hand out is the rest
of the stream. Before this last reading it has pulled lexemes and comments only, so neither an error
nor the end of the text.

* `Puller.Shows`: it stands where a parser of the stream stands;
* `Puller.exists_pullWithin`, `Puller.exists_step`: pulling ends, and shows the next lexeme;
* `Puller.Shows.length_lt_rounds`: loops that take a lexeme each time may go round often enough.
-/

namespace Script

open LexemeStream (ofReadings)

namespace Puller

variable {readings : List Reading} {S S' : Puller} {lexemes : List Lexeme} {ending : Ending}

/-- Some lexemes are ahead, with how they end: the lexer hands them out next, after nothing but
lexemes and comments. -/
structure Ahead (readings : List Reading) (S : Puller) (lexemes : List Lexeme) (ending : Ending) :
    Prop where
  readings_eq : readings = S.pulled ++ S.lexer.readings
  goesOn : ∀ r ∈ S.pulled, GoesOn r
  comments_eq : S.comments = commentSpans S.pulled
  stream : ∃ offset, (ofReadings offset S.lexer.readings).lexemes = lexemes ∧
    (ofReadings offset S.lexer.readings).ending = ending

/-- **A puller stands where a parser of the stream stands.** -/
structure Shows (readings : List Reading) (S : Puller) (s : ParserState) : Prop where
  current_eq : S.current? = s.lookahead?
  failure_eq : S.failure? = s.lexicalError?
  lastStop_eq : S.lastStop = s.lastStop
  pulled : ∃ before after, readings = S.pulled ++ after ∧
    S.pulled = before ++ [upcoming s.lexemes s.ending] ∧ ∀ r ∈ before, GoesOn r
  comments_eq : S.comments = commentSpans S.pulled
  ahead : ∀ x rest, s.lexemes = x :: rest → S.Ahead readings rest s.ending

/-- The state after a comment: what is ahead stays ahead. -/
theorem Ahead.comment {after : Cursor} {span : Span} (h : S.Ahead readings lexemes ending)
    (hnext : S.lexer.next = (.ok ⟨.comment, span⟩, after)) :
    Ahead readings { S with
      lexer := after
      pulled := S.pulled ++ [.ok ⟨.comment, span⟩]
      comments := S.comments ++ [span] } lexemes ending := by
  have hreadings := Cursor.readings_cons hnext (by rintro ⟨_, ⟨⟩⟩)
  obtain ⟨offset, hlexemes, hending⟩ := h.stream
  rw [hreadings] at hlexemes hending
  refine ⟨?_, ?_, ?_, span.stop, hlexemes, hending⟩
  · rw [h.readings_eq, hreadings, List.append_assoc, List.singleton_append]
  · exact List.forall_mem_append.2 ⟨h.goesOn, List.forall_mem_singleton.2 ⟨_, rfl, by simp⟩⟩
  · rw [commentSpans_append, h.comments_eq]
    rfl

theorem Ahead.comments_append {reading : Reading} (h : S.Ahead readings lexemes ending)
    (hreading : commentSpan? reading = none) :
    S.comments = commentSpans (S.pulled ++ [reading]) := by
  rw [commentSpans_append, h.comments_eq, commentSpans, commentSpans,
    List.filterMap_cons_none hreading, List.filterMap_nil, List.append_nil]

section Pulling

variable (n : Nat) {after : Cursor} {error : LexicalError} {token : Token} {span : Span}

theorem pullWithin_of_error (hnext : S.lexer.next = (.error error, after)) :
    pullWithin (n + 1) S = some { S with
      lexer := after
      pulled := S.pulled ++ [.error error]
      failure? := some error } := by
  rw [pullWithin, hnext]

theorem pullWithin_of_comment (hnext : S.lexer.next = (.ok ⟨.comment, span⟩, after)) :
    pullWithin (n + 1) S = pullWithin n { S with
      lexer := after
      pulled := S.pulled ++ [.ok ⟨.comment, span⟩]
      comments := S.comments ++ [span] } := by
  rw [pullWithin, hnext]

theorem pullWithin_of_token (hnext : S.lexer.next = (.ok ⟨token, span⟩, after))
    (hcomment : token ≠ .comment) :
    pullWithin (n + 1) S = some { S with
      lexer := after
      pulled := S.pulled ++ [.ok ⟨token, span⟩]
      current? := some ⟨token, span⟩ } := by
  rw [pullWithin, hnext]
  cases token with
  | comment => exact absurd rfl hcomment
  | _ => rfl

end Pulling

/-- **Pulling ends**, and what is ahead is shown. -/
theorem exists_pullWithin : ∀ (n : Nat) (S : Puller), S.lexer.rest.length < n →
    S.Ahead readings lexemes ending → S.current? = none → S.failure? = none →
    ∃ S', pullWithin n S = some S' ∧ S'.Shows readings ⟨lexemes, ending, S.lastStop⟩ ∧
      S'.depth = S.depth
  | 0, _, hn, _, _, _ => by omega
  | n + 1, S, hn, h, hcurrent, hfailure => by
    rcases hnext : S.lexer.next with ⟨reading, after⟩
    obtain ⟨offset, hlexemes, hending⟩ := h.stream
    have hreadings := h.readings_eq
    rw [Cursor.ofReadings_readings offset hnext] at hlexemes hending
    rcases reading with error | ⟨token, span⟩
    · subst hlexemes hending
      rw [pullWithin, hnext]
      rw [Cursor.readings_cons hnext (by rintro ⟨_, ⟨⟩⟩), List.append_cons] at hreadings
      exact ⟨_, rfl, ⟨hcurrent, rfl, rfl, ⟨_, _, hreadings, rfl, h.goesOn⟩,
        h.comments_append rfl, by rintro x rest ⟨⟩⟩, rfl⟩
    by_cases heof : token = .eof
    · subst heof hlexemes hending
      rw [pullWithin, hnext]
      rw [Cursor.readings_eof hnext ⟨span, rfl⟩] at hreadings
      -- the end of the text is read as a point
      have hspan : (⟨.eof, span⟩ : Lexeme) = ⟨.eof, .point span.start⟩ := by
        rw [← (Cursor.eq_of_next_eof hnext).2]
      refine ⟨_, rfl, ⟨congrArg some hspan, hfailure, rfl, ⟨_, [], ?_, ?_, h.goesOn⟩,
        h.comments_append rfl, by rintro x rest ⟨⟩⟩, rfl⟩
      · rw [List.append_nil]
        exact hreadings
      · exact congrArg (fun x => S.pulled ++ [.ok x]) hspan
    by_cases hcomment : token = .comment
    · subst hcomment
      have hlt := Cursor.length_next_lt_of_ok hnext heof
      have hn' : after.rest.length < n := by omega
      rw [pullWithin, hnext]
      exact exists_pullWithin n _ hn' (h.comment hnext) hcurrent hfailure
    · rw [LexemeStream.ofReadings_cons offset heof hcomment] at hlexemes hending
      subst hlexemes hending
      rw [Cursor.readings_cons hnext (by rintro ⟨_, heq⟩; cases heq; exact heof rfl),
        List.append_cons] at hreadings
      have hcomments := h.comments_append (commentSpan?_eq_none hcomment span)
      have hpull := pullWithin_of_token n hnext hcomment
      refine ⟨_, hpull, ⟨rfl, hfailure, rfl, ⟨_, _, hreadings, rfl, h.goesOn⟩, hcomments, ?_⟩, rfl⟩
      rintro x rest ⟨⟩
      refine ⟨hreadings, ?_, hcomments, span.stop, rfl, rfl⟩
      exact List.forall_mem_append.2 ⟨h.goesOn, List.forall_mem_singleton.2 ⟨_, rfl, heof⟩⟩

/-- **The lexeme in front is handed out**, and the next one is shown. -/
theorem exists_step {s : ParserState} {x : Lexeme} {rest : List Lexeme}
    (h : S.Shows readings s) (hs : s.lexemes = x :: rest) :
    ∃ S', S.step = some S' ∧ S'.Shows readings s.advance ∧ S'.depth = S.depth := by
  obtain ⟨l, ending, stop⟩ := s
  obtain rfl : l = x :: rest := hs
  have hfailure : S.failure? = none := h.failure_eq
  have hcurrent : S.current? = some x := h.current_eq
  rw [step, hfailure, hcurrent]
  obtain ⟨hreadings, hgoesOn, hcomments, hstream⟩ := h.ahead x rest rfl
  exact exists_pullWithin _ _ (Nat.lt_add_of_pos_right Nat.two_pos)
    ⟨hreadings, hgoesOn, hcomments, hstream⟩ rfl rfl

/-- **A loop may go round more often** than there are lexemes left. -/
theorem Shows.length_lt_rounds {s : ParserState} (h : S.Shows readings s) :
    s.lexemes.length < S.rounds := by
  rw [rounds]
  cases hs : s.lexemes with
  | nil => exact Nat.succ_pos _
  | cons x rest =>
    obtain ⟨offset, hlexemes, -⟩ := (h.ahead x rest hs).stream
    have hle := S.lexer.length_lexemes_le offset
    rw [hlexemes] at hle
    rw [List.length_cons]
    omega

/-- The first lexeme of a text is shown. -/
theorem exists_step_ofText (text : String) :
    ∃ S, (ofText text).step = some S ∧
      S.Shows (Cursor.ofChars text.toList).readings (.ofStream (.ofText text)) ∧ S.depth = 0 :=
  exists_pullWithin _ (ofText text) (Nat.lt_add_of_pos_right Nat.two_pos)
    ⟨rfl, List.forall_mem_nil _, rfl, 0, rfl, rfl⟩ rfl rfl

end Puller

end Script
