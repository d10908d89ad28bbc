import Script.Proofs.Lexeme.Lines
import Script.Proofs.Lexeme.Order

/-!
# The readings in front of a reading

Whoever asks for the readings of a text one by one knows those up to some point. As long as these
are lexemes and comments, the text goes on, and its stream goes on as the rest of the readings do.
The comments among them are known from the whole stream as well: they are those that all the lexemes
from the point on follow.

* `GoesOn`: a reading after which the text goes on;
* `commentSpans`: the comments among some readings;
* `LexemeStream.exists_ofReadings_append`: what readings add to a stream in front of the others;
* `LexemeStream.exists_passed`, `LexemeStream.commentsPassed_eq`: the comments in front of a
  reading;
* `Cursor.exists_readings_of_feeds`: the readings that a cursor has been asked for, and
  `Cursor.skip_of_feeds`: where it then stands.
-/

namespace Script

open LexemeStream (ofReadings)

/-! ### Readings -/

/-- After a reading the text goes on: it is a lexeme or a comment. -/
def GoesOn (reading : Reading) : Prop :=
  ∃ x, reading = .ok x ∧ x.token ≠ .eof

/-- The span of a comment. -/
def commentSpan? : Reading → Option Span
  | .ok ⟨.comment, span⟩ => some span
  | _ => none

/-- The spans of the comments among some readings, in their order. -/
def commentSpans (readings : List Reading) : List Span :=
  readings.filterMap commentSpan?

theorem commentSpans_append (readings readings' : List Reading) :
    commentSpans (readings ++ readings') = commentSpans readings ++ commentSpans readings' :=
  List.filterMap_append

theorem commentSpan?_eq_none {token : Token} (h : token ≠ .comment) (span : Span) :
    commentSpan? (.ok ⟨token, span⟩) = none := by
  cases token with
  | comment => exact absurd rfl h
  | _ => rfl

/-- The reading that comes next in a stream is no comment if its lexemes are none. -/
theorem commentSpan?_upcoming {lexemes : List Lexeme} (ending : Ending)
    (h : ∀ x ∈ lexemes, x.token ≠ .comment) : commentSpan? (upcoming lexemes ending) = none := by
  cases lexemes with
  | nil => cases ending <;> rfl
  | cons x rest => exact commentSpan?_eq_none (h x List.mem_cons_self) x.span

/-! ### Readings in front of others -/

variable {before after : List Reading} {head : Reading} {cs : List Char}

namespace LexemeStream

/-- **What goes on** adds its lexemes and comments in front of those of the readings after it, all
of whose lexemes follow these comments. -/
theorem exists_ofReadings_append (offset : UInt32) (hbefore : ∀ r ∈ before, GoesOn r)
    (after : List Reading) : ∃ offset' l passed,
      ofReadings offset (before ++ after) = ⟨l ++ (ofReadings offset' after).lexemes,
        passed ++ (ofReadings offset' after).comments, (ofReadings offset' after).ending⟩ ∧
      passed.map (·.span) = commentSpans before ∧ before.length = l.length + passed.length ∧
      ∀ comment ∈ passed, (ofReadings offset' after).lexemes.length ≤ comment.following := by
  induction before generalizing offset with
  | nil => exact ⟨offset, [], [], rfl, rfl, rfl, List.forall_mem_nil _⟩
  | cons r before ih =>
    -- a reading that goes on is a comment or a lexeme
    obtain ⟨⟨x, rfl, heof⟩, hrest⟩ := List.forall_mem_cons.1 hbefore
    obtain ⟨offset', l, passed, hstream, hspans, hlength, hfollowing⟩ := ih x.span.stop hrest
    obtain ⟨token, span⟩ := x
    by_cases hcomment : token = .comment
    · subst hcomment
      refine ⟨offset', l, ⟨span, (ofReadings span.stop (before ++ after)).lexemes.length⟩ :: passed,
        ?_, ?_, ?_, List.forall_mem_cons.2 ⟨?_, hfollowing⟩⟩
      · show ofReadings offset (.ok ⟨.comment, span⟩ :: (before ++ after)) = _
        rw [ofReadings_comment, hstream]
        rfl
      · exact congrArg (span :: ·) hspans
      · simp only [List.length_cons, hlength]
        omega
      · rw [hstream, List.length_append]
        exact Nat.le_add_left _ _
    · refine ⟨offset', ⟨token, span⟩ :: l, passed, ?_, ?_, ?_, hfollowing⟩
      · rw [List.cons_append, ofReadings_cons offset heof hcomment, hstream]
        rfl
      · rw [hspans, commentSpans, commentSpans,
          List.filterMap_cons_none (commentSpan?_eq_none hcomment span)]
      · simp only [List.length_cons, hlength]
        omega

/-- A comment is followed by no more lexemes than there are. -/
theorem following_le (offset : UInt32) (readings : List Reading) :
    ∀ comment ∈ (ofReadings offset readings).comments,
      comment.following ≤ (ofReadings offset readings).lexemes.length := by
  induction readings generalizing offset with
  | nil => exact List.forall_mem_nil _
  | cons r rest ih =>
    rcases r with error | ⟨token, span⟩
    · exact List.forall_mem_nil _
    by_cases heof : token = .eof
    · subst heof
      exact List.forall_mem_nil _
    by_cases hcomment : token = .comment
    · subst hcomment
      exact List.forall_mem_cons.2 ⟨Nat.le_refl _, ih span.stop⟩
    · rw [ofReadings_cons offset heof hcomment]
      exact fun comment h => Nat.le_succ_of_le (ih span.stop comment h)

section Passed

variable {stream : LexemeStream} {s : ParserState} {offset : UInt32}
  (hstream : stream = ofReadings offset (before ++ head :: after))
  (hbefore : ∀ r ∈ before, GoesOn r) (hcomment : commentSpan? head = none)
  (hleft : s.lexemes.length = (ofReadings offset (head :: after)).lexemes.length)
include hstream hbefore hcomment hleft

/-- **In front of a reading that is no comment** stand the comments that all lexemes from this
reading on follow, and no others. -/
theorem exists_passed : ∃ passed more, stream.comments = passed ++ more ∧
    passed.map (·.span) = commentSpans before ∧ s.commentsPassed passed = commentSpans before ∧
    s.commentsPassed more = [] := by
  obtain ⟨offset', l, passed, hall, hspans, -, hfollowing⟩ :=
    exists_ofReadings_append offset hbefore (head :: after)
  rw [ofReadings_start offset' offset] at hall hfollowing
  -- the comments from here on are followed by fewer lexemes, as the reading here is one
  have hrest : ∀ comment ∈ (ofReadings offset (head :: after)).comments,
      comment.following < s.lexemes.length := by
    rw [hleft]
    rcases head with error | ⟨token, span⟩
    · exact List.forall_mem_nil _
    by_cases heof : token = .eof
    · subst heof
      exact List.forall_mem_nil _
    have hne : token ≠ .comment := by
      rintro rfl
      cases hcomment
    rw [ofReadings_cons offset heof hne]
    exact fun comment h => Nat.lt_succ_of_le (following_le _ _ comment h)
  refine ⟨passed, _, by rw [hstream, hall], hspans, ?_, ?_⟩
  · rw [ParserState.commentsPassed,
      List.filter_eq_self.2 fun comment h => decide_eq_true (hleft ▸ hfollowing comment h), hspans]
  · rw [ParserState.commentsPassed, List.filter_eq_nil_iff.2 fun comment h hle =>
      Nat.not_le.2 (hrest comment h) (of_decide_eq_true hle), List.map_nil]

theorem commentsPassed_eq : s.commentsPassed stream.comments = commentSpans before := by
  obtain ⟨passed, more, hall, -, hpassed, hmore⟩ := exists_passed hstream hbefore hcomment hleft
  rw [ParserState.commentsPassed] at hpassed hmore ⊢
  rw [hall, List.filter_append, List.map_append, hpassed, hmore, List.append_nil]

end Passed

end LexemeStream

namespace Cursor

theorem readings_eq_cons (c : Cursor) : ∃ more, c.readings = c.next.1 :: more ∧
    (IsEof c.next.1 → more = []) ∧ (¬ IsEof c.next.1 → more = c.next.2.readings) := by
  by_cases heof : IsEof c.next.1
  · exact ⟨[], readings_eof rfl heof, fun _ => rfl, fun h => absurd heof h⟩
  · exact ⟨_, readings_cons rfl heof, fun h => absurd h heof, fun _ => rfl⟩

theorem readings_ne_nil (c : Cursor) : c.readings ≠ [] := by
  obtain ⟨more, hmore, -⟩ := c.readings_eq_cons
  rw [hmore]
  exact List.cons_ne_nil _ _

/-- In front of another reading no lexeme is the end of the text. -/
theorem goesOn_of_append : ∀ {before : List Reading} (c : Cursor),
    c.readings = before ++ head :: after → (∀ r ∈ before, ∃ x, r = .ok x) →
    ∀ r ∈ before, GoesOn r
  | [], _, _, _ => List.forall_mem_nil _
  | r :: before, c, hreadings, hbefore => by
    obtain ⟨⟨x, rfl⟩, hrest⟩ := List.forall_mem_cons.1 hbefore
    obtain ⟨more, hmore, heof, hother⟩ := c.readings_eq_cons
    obtain ⟨hnext, rfl⟩ := List.cons.inj (hmore.symm.trans hreadings)
    have hgoes : ¬ IsEof c.next.1 := fun h => by simpa using heof h
    refine List.forall_mem_cons.2 ⟨⟨x, rfl, ?_⟩, ?_⟩
    · obtain ⟨token, span⟩ := x
      rintro rfl
      exact hgoes ⟨span, hnext⟩
    · exact goesOn_of_append c.next.2 (hother hgoes).symm hrest

/-- Nothing is read after the end of a text. -/
theorem eq_nil_of_isEof (hhead : IsEof head) : ∀ {before : List Reading} (c : Cursor),
    c.readings = before ++ head :: after → after = []
  | [], c, hreadings => by
    obtain ⟨more, hmore, heof, -⟩ := c.readings_eq_cons
    obtain ⟨rfl, rfl⟩ := List.cons.inj (hmore.symm.trans hreadings)
    exact heof hhead
  | r :: before, c, hreadings => by
    obtain ⟨more, hmore, heof, hother⟩ := c.readings_eq_cons
    obtain ⟨rfl, rfl⟩ := List.cons.inj (hmore.symm.trans hreadings)
    have hgoes : ¬ IsEof c.next.1 := fun h => by simpa using heof h
    exact eq_nil_of_isEof hhead c.next.2 (hother hgoes).symm

/-- **What a cursor has been asked for** are its readings up to some point. -/
theorem exists_readings_of_feeds {c c' : Cursor} {l : List Lexeme} {reading : Reading}
    (h : Feeds next c l reading c') : ∃ before after, c.readings = before ++ reading :: after ∧
      (∀ r ∈ before, GoesOn r) ∧ before.length = l.length + (commentSpans before).length ∧
      commentSpan? reading = none ∧ c' = c.skip (before.length + 1) := by
  induction h with
  | @look c c' reading hnext hcomment =>
    -- the reading that is looked at is the next one of the cursor
    obtain ⟨more, hmore, -⟩ := c.readings_eq_cons
    rw [hnext] at hmore
    have hnone : commentSpan? reading = none := by
      rcases reading with error | ⟨token, span⟩
      · rfl
      · exact commentSpan?_eq_none (fun htoken => hcomment ⟨span, htoken ▸ rfl⟩) span
    exact ⟨[], more, hmore, List.forall_mem_nil _, rfl, hnone, by rw [skip, hnext]; rfl⟩
  | @skip c c₁ c' span l reading hnext _ ih =>
    obtain ⟨before, after, hreadings, hbefore, hlength, hnone, hskip⟩ := ih
    have hgoes : GoesOn (.ok ⟨.comment, span⟩) := ⟨_, rfl, Token.noConfusion⟩
    refine ⟨_ :: before, after, ?_, List.forall_mem_cons.2 ⟨hgoes, hbefore⟩, ?_, hnone, ?_⟩
    · rw [readings_cons hnext (by rintro ⟨_, ⟨⟩⟩), hreadings]
      rfl
    · rw [List.length_cons, hlength]
      rfl
    · rw [skip, hnext, hskip]
      rfl
  | @take c c₁ c' x l reading hnext heof hcomment _ ih =>
    obtain ⟨before, after, hreadings, hbefore, hlength, hnone, hskip⟩ := ih
    refine ⟨_ :: before, after, ?_, List.forall_mem_cons.2 ⟨⟨x, rfl, heof⟩, hbefore⟩, ?_, hnone, ?_⟩
    · have hgoes : ¬ IsEof (.ok x) := by
        rintro ⟨span, heq⟩
        exact heof (congrArg Lexeme.token (Except.ok.inj heq))
      rw [readings_cons hnext hgoes, hreadings]
      rfl
    · rw [List.length_cons, commentSpans,
        List.filterMap_cons_none (commentSpan?_eq_none hcomment x.span), hlength, List.length_cons]
      simp only [commentSpans]
      omega
    · rw [skip, hnext, hskip]
      rfl

/-- Where a cursor stands that has been asked for some lexemes is told from what a parser that has
taken these has left: the lexemes gone and the comments passed, and the reading ahead. -/
theorem skip_of_feeds {c' : Cursor} {l : List Lexeme} {reading : Reading} {s : ParserState}
    (h : Feeds next (.ofChars cs) l reading c')
    (hlexemes : (LexemeStream.ofChars cs).lexemes = l ++ s.lexemes) :
    (Cursor.ofChars cs).skip ((LexemeStream.ofChars cs).lexemes.length - s.lexemes.length +
      (s.commentsPassed (LexemeStream.ofChars cs).comments).length + 1) = c' := by
  obtain ⟨before, after, hreadings, hbefore, hcount, hnone, hskip⟩ := exists_readings_of_feeds h
  have hstream : LexemeStream.ofChars cs = ofReadings 0 (before ++ reading :: after) :=
    congrArg (ofReadings 0) hreadings
  obtain ⟨offset, taken, passed, hall, hspans, hlength, -⟩ :=
    LexemeStream.exists_ofReadings_append 0 hbefore (reading :: after)
  rw [LexemeStream.ofReadings_start offset 0] at hall
  have hpassed := congrArg List.length hspans
  have hleft := congrArg List.length
    (hlexemes.symm.trans (congrArg LexemeStream.lexemes (hstream.trans hall)))
  simp only [List.length_map, List.length_append] at hpassed hleft
  rw [LexemeStream.commentsPassed_eq hstream hbefore hnone (by omega), hlexemes, hskip,
    List.length_append]
  congr 1
  omega

/-- The lexemes from a place on are no more than the characters there. -/
theorem length_lexemes_le (c : Cursor) (offset : UInt32) :
    (ofReadings offset c.readings).lexemes.length ≤ c.rest.length := by
  rcases hnext : c.next with ⟨reading, c'⟩
  rw [ofReadings_readings offset hnext]
  rcases reading with error | ⟨token, span⟩
  · exact Nat.zero_le _
  by_cases heof : token = .eof
  · subst heof
    exact Nat.zero_le _
  have hlt := length_next_lt_of_ok hnext heof
  have ih := length_lexemes_le c' span.stop
  by_cases hcomment : token = .comment
  · subst hcomment
    exact Nat.le_trans ih (Nat.le_of_lt hlt)
  · rw [LexemeStream.ofReadings_cons offset heof hcomment]
    exact Nat.lt_of_le_of_lt ih hlt
termination_by c.rest.length

/-- The comments from a place on begin there or later. -/
theorem offset_le_of_mem_comments (hshort : Text.byteLength cs < 2 ^ 32) (c : Cursor)
    (h : In cs c) (offset : UInt32) :
    ∀ comment ∈ (ofReadings offset c.readings).comments, c.offset ≤ comment.span.start.toNat := by
  obtain ⟨hin, -, hstart, hstop, hbytes⟩ := h.next hshort
  rcases hnext : c.next with ⟨reading, c'⟩
  rw [ofReadings_readings offset hnext]
  rw [hnext] at hin hstart hstop hbytes
  rcases reading with error | ⟨token, span⟩
  · exact List.forall_mem_nil _
  by_cases heof : token = .eof
  · subst heof
    exact List.forall_mem_nil _
  have hlt := length_next_lt_of_ok hnext heof
  have hpos : span.start.toNat < span.stop.toNat := hbytes _ rfl heof
  have hle : c.offset ≤ span.start.toNat := hstart
  have hrest : span.stop.toNat = c'.offset := hstop
  -- what is read behind begins where this reading ends, or later
  have ih := offset_le_of_mem_comments hshort c' hin span.stop
  by_cases hcomment : token = .comment
  · subst hcomment
    exact List.forall_mem_cons.2 ⟨hle, fun comment h => by have := ih comment h; omega⟩
  · rw [LexemeStream.ofReadings_cons offset heof hcomment]
    exact fun comment h => by have := ih comment h; omega
termination_by c.rest.length

end Cursor

end Script
