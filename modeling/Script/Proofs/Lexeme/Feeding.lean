import Script.Proofs.Lexeme.Locality

/-!
# Lexemes on demand

A parser does not get the stream of a text but asks a lexer for one reading after another, no more
of them than it needs: those that it takes, the one that comes next, and the comments before these.
Here this is told of any lexer (`Feeds`), with the cursor as the first of them.

* `LexemeStream.StartsWith`: a stream begins with some lexemes, and then a reading comes next;
* `Cursor.exists_feeds`, `Cursor.startsWith_of_feeds`: what a cursor is asked for is how the stream
  of its text begins;
* `Cursor.exists_feeds_append`: it looks one character further, and does not depend on the others.
-/

namespace Script

open Text (byteLength isBlank)

/-! ### How a stream begins -/

/-- The reading at the end of a stream. -/
def Ending.reading : Ending → Reading
  | .eof offset => .ok ⟨.eof, .point offset⟩
  | .broken error => .error error

/-- The reading that comes next where some lexemes are left before an end. -/
def upcoming : List Lexeme → Ending → Reading
  | x :: _, _ => .ok x
  | [], ending => ending.reading

/-- A stream begins with some lexemes, and then a reading comes next. -/
def LexemeStream.StartsWith (stream : LexemeStream) (l : List Lexeme) (reading : Reading) : Prop :=
  ∃ more, stream.lexemes = l ++ more ∧ upcoming more stream.ending = reading

theorem LexemeStream.startsWith_cons {stream : LexemeStream} {l : List Lexeme} {reading : Reading}
    (h : stream.StartsWith l reading) (x : Lexeme) :
    StartsWith { stream with lexemes := x :: stream.lexemes } (x :: l) reading := by
  obtain ⟨more, hlexemes, hnext⟩ := h
  exact ⟨more, congrArg (x :: ·) hlexemes, hnext⟩

/-! ### What a lexer is asked for -/

/-- A reading is a comment. -/
def IsComment (reading : Reading) : Prop :=
  ∃ span, reading = .ok ⟨.comment, span⟩

/-- **A lexer is asked for some lexemes** and for the reading that comes next after them; comments
are passed. -/
inductive Feeds {σ : Type} (next : σ → Reading × σ) : σ → List Lexeme → Reading → σ → Prop where
  | look {s s' : σ} {reading : Reading} (h : next s = (reading, s'))
      (hcomment : ¬ IsComment reading) : Feeds next s [] reading s'
  | skip {s s₁ s' : σ} {span : Span} {l : List Lexeme} {reading : Reading}
      (h : next s = (.ok ⟨.comment, span⟩, s₁)) (rest : Feeds next s₁ l reading s') :
      Feeds next s l reading s'
  | take {s s₁ s' : σ} {x : Lexeme} {l : List Lexeme} {reading : Reading}
      (h : next s = (.ok x, s₁)) (heof : x.token ≠ .eof) (hcomment : x.token ≠ .comment)
      (rest : Feeds next s₁ l reading s') : Feeds next s (x :: l) reading s'

/-- There is only one way to ask a lexer for some lexemes. -/
theorem Feeds.unique {σ : Type} {next : σ → Reading × σ} {s s' s'' : σ} {l : List Lexeme}
    {reading reading' : Reading} (h : Feeds next s l reading s')
    (h' : Feeds next s l reading' s'') :
    reading' = reading ∧ s'' = s' := by
  -- each reading is asked for in one way only: a comment is skipped, others are taken or looked at
  induction h with
  | look h hcomment =>
    cases h' with
    | look h' _ => exact Prod.mk.inj (h'.symm.trans h)
    | skip h' _ =>
      obtain ⟨rfl, -⟩ := Prod.mk.inj (h'.symm.trans h)
      exact absurd ⟨_, rfl⟩ hcomment
  | skip h _ ih =>
    cases h' with
    | look h' hcomment =>
      obtain ⟨rfl, -⟩ := Prod.mk.inj (h'.symm.trans h)
      exact absurd ⟨_, rfl⟩ hcomment
    | skip h' rest' =>
      obtain ⟨-, rfl⟩ := Prod.mk.inj (h'.symm.trans h)
      exact ih rest'
    | take h' _ hcomment _ =>
      obtain ⟨hx, -⟩ := Prod.mk.inj (h'.symm.trans h)
      exact absurd (congrArg Lexeme.token (Except.ok.inj hx)) hcomment
  | take h _ hcomment _ ih =>
    cases h' with
    | skip h' _ =>
      obtain ⟨hx, -⟩ := Prod.mk.inj (h.symm.trans h')
      exact absurd (congrArg Lexeme.token (Except.ok.inj hx)) hcomment
    | take h' _ _ rest' =>
      obtain ⟨-, rfl⟩ := Prod.mk.inj (h'.symm.trans h)
      exact ih rest'

/-- Where a reading ends. -/
def Reading.stop : Reading → UInt32
  | .ok x => x.span.stop
  | .error e => e.span.stop

namespace Cursor

theorem stop_stringFrom (start : Cursor) (cs : List Char) (offset : Nat) (value : List Char) :
    Reading.stop (stringFrom start offset value cs).1 =
      .ofNat (stringFrom start offset value cs).2.offset := by
  fun_induction stringFrom start offset value cs with
  | case4 offset value letter rest after char hchar ih => exact ih
  | case6 offset value char rest h₁ h₂ h₃ ih => exact ih
  | _ => rfl

/-- A reading ends where the next one begins. -/
theorem stop_next (c : Cursor) : Reading.stop c.next.1 = .ofNat c.next.2.offset := by
  rw [next]
  generalize c.dropWhile isBlank = c
  unfold read
  split
  · rfl
  · rfl
  · exact stop_stringFrom ..
  · split
    · rfl
    · split
      · unfold number
        dsimp only
        split <;> rfl
      · split <;> rfl

/-- The end of a text is read at its end only, as an empty span. -/
theorem eq_of_read_eof {c c' : Cursor} {span : Span} (h : c.read = (.ok ⟨.eof, span⟩, c')) :
    c.rest = [] ∧ c'.rest = [] ∧ span = .point (.ofNat c.offset) := by
  unfold read at h
  split at h
  · next hrest =>
    cases h
    exact ⟨hrest, hrest, rfl⟩
  · cases h
  · exact absurd (regular_of_stringFrom _ _ _ _ _ _ h) id
  · split at h
    · unfold word at h
      dsimp only at h
      split at h <;> cases h
    · split at h
      · unfold number at h
        dsimp only at h
        split at h <;> cases h
      · split at h <;> cases h

theorem eq_of_next_eof {c c' : Cursor} {span : Span} (h : c.next = (.ok ⟨.eof, span⟩, c')) :
    c'.rest = [] ∧ span = .point span.start := by
  obtain ⟨-, hrest, hspan⟩ := eq_of_read_eof h
  exact ⟨hrest, by rw [hspan]; rfl⟩

/-! ### What a cursor is asked for -/

/-- The stream of a text is that of its first reading and of the text after this. -/
theorem ofReadings_readings {c c' : Cursor} {reading : Reading} (offset : UInt32)
    (h : c.next = (reading, c')) :
    LexemeStream.ofReadings offset c.readings =
      LexemeStream.ofReadings offset (reading :: c'.readings) := by
  by_cases heof : IsEof reading
  · rw [readings_eof h heof]
    obtain ⟨span, rfl⟩ := heof
    rfl
  · rw [readings_cons h heof]

theorem length_next_lt_of_ok {c c' : Cursor} {x : Lexeme} (h : c.next = (.ok x, c'))
    (heof : x.token ≠ .eof) : c'.rest.length < c.rest.length := by
  have hlt := c.length_next_lt
  rw [h] at hlt
  exact hlt.resolve_left fun ⟨span, hspan⟩ => heof (congrArg Lexeme.token (Except.ok.inj hspan))

theorem exists_feeds_of_lt : ∀ (n : Nat) (c : Cursor) (offset : UInt32) (l more : List Lexeme),
    c.rest.length < n → (LexemeStream.ofReadings offset c.readings).lexemes = l ++ more →
    ∃ c', Feeds next c l (upcoming more (LexemeStream.ofReadings offset c.readings).ending) c'
  | 0, _, _, _, _, hn, _ => by omega
  | n + 1, c, offset, l, more, hn, hl => by
    rcases hnext : c.next with ⟨reading, c₁⟩
    rw [ofReadings_readings offset hnext] at hl ⊢
    -- a lexical error is the last reading
    rcases reading with e | ⟨token, span⟩
    · obtain ⟨rfl, rfl⟩ := List.append_eq_nil_iff.1 hl.symm
      exact ⟨c₁, .look hnext (by rintro ⟨_, ⟨⟩⟩)⟩
    by_cases heof : token = .eof
    · subst heof
      obtain ⟨rfl, rfl⟩ := List.append_eq_nil_iff.1 hl.symm
      have hspan := (eq_of_next_eof hnext).2
      refine ⟨c₁, .look (hnext.trans ?_) (by rintro ⟨_, ⟨⟩⟩)⟩
      rw [hspan]
      rfl
    have hlt := length_next_lt_of_ok hnext heof
    by_cases hcomment : token = .comment
    · subst hcomment
      obtain ⟨c', hfeeds⟩ := exists_feeds_of_lt n c₁ span.stop l more (by omega) hl
      exact ⟨c', .skip hnext hfeeds⟩
    · rw [LexemeStream.ofReadings_cons offset heof hcomment] at hl ⊢
      -- the lexeme is the one that is looked at if none is taken any more
      cases l with
      | nil =>
        obtain rfl : _ = more := hl
        refine ⟨c₁, .look hnext ?_⟩
        rintro ⟨_, ⟨⟩⟩
        exact hcomment rfl
      | cons y l =>
        obtain ⟨rfl, htail⟩ := List.cons.inj hl
        obtain ⟨c', hfeeds⟩ := exists_feeds_of_lt n c₁ span.stop l more (by omega) htail
        exact ⟨c', .take hnext heof hcomment hfeeds⟩

/-- **Whatever lexemes a stream begins with**, the cursor can be asked for these. -/
theorem exists_feeds (c : Cursor) (offset : UInt32) {l more : List Lexeme}
    (hl : (LexemeStream.ofReadings offset c.readings).lexemes = l ++ more) :
    ∃ c', Feeds next c l (upcoming more (LexemeStream.ofReadings offset c.readings).ending) c' :=
  exists_feeds_of_lt _ c offset l more (Nat.lt_succ_self _) hl

/-- **What a cursor is asked for** is how the stream of its text begins. -/
theorem startsWith_of_feeds {c c' : Cursor} {l : List Lexeme} {reading : Reading}
    (h : Feeds next c l reading c') :
    ∀ offset, (LexemeStream.ofReadings offset c.readings).StartsWith l reading := by
  induction h with
  | @look c c' reading h hcomment =>
    intro offset
    rw [ofReadings_readings offset h]
    rcases reading with e | ⟨token, span⟩
    · exact ⟨[], rfl, rfl⟩
    · by_cases heof : token = .eof
      · subst heof
        rw [(eq_of_next_eof h).2]
        exact ⟨[], rfl, rfl⟩
      · -- what is looked at is no comment
        have hcomment' : token ≠ .comment := by
          rintro rfl
          exact hcomment ⟨span, rfl⟩
        rw [LexemeStream.ofReadings_cons offset heof hcomment']
        exact ⟨_, rfl, rfl⟩
  | skip h _ ih =>
    intro offset
    rw [ofReadings_readings offset h]
    exact ih _
  | take h heof hcomment _ ih =>
    intro offset
    rw [ofReadings_readings offset h, LexemeStream.ofReadings_cons offset heof hcomment]
    exact LexemeStream.startsWith_cons (ih _) _

theorem exists_next_append {c c' : Cursor} {reading : Reading} (h : c.next = (reading, c')) :
    ∃ taken, c.rest = taken ++ c'.rest ∧ c'.offset = c.offset + byteLength taken ∧
      ∀ rest, rest.head? = c'.rest.head? →
        next ⟨c.offset, taken ++ rest⟩ = (reading, ⟨c'.offset, rest⟩) := by
  obtain ⟨taken, hrest, hoffset, hsame⟩ := exists_looksAhead_next c
  rw [h] at hrest hoffset hsame
  exact ⟨taken, hrest, hoffset, hsame⟩

/-- **What a cursor is asked for** does not depend on its text beyond the next character. -/
theorem exists_feeds_append {c c' : Cursor} {l : List Lexeme} {reading : Reading}
    (h : Feeds next c l reading c') :
    ∃ taken, c.rest = taken ++ c'.rest ∧ c'.offset = c.offset + byteLength taken ∧
      ∀ rest, rest.head? = c'.rest.head? →
        Feeds next ⟨c.offset, taken ++ rest⟩ l reading ⟨c'.offset, rest⟩ := by
  -- the first reading, in front of what the others take
  have hfirst {c c₁ c' : Cursor} {reading : Reading} {taken : List Char}
      (h : c.next = (reading, c₁)) (hrest : c₁.rest = taken ++ c'.rest)
      (hoffset : c'.offset = c₁.offset + byteLength taken) :
      ∃ all, c.rest = all ++ c'.rest ∧ c'.offset = c.offset + byteLength all ∧
        ∀ rest, rest.head? = c'.rest.head? →
          next ⟨c.offset, all ++ rest⟩ = (reading, ⟨c₁.offset, taken ++ rest⟩) := by
    obtain ⟨first, hrest', hoffset', hsame⟩ := exists_next_append h
    refine ⟨first ++ taken, ?_, ?_, fun rest hhead => ?_⟩
    · rw [hrest', hrest, List.append_assoc]
    · rw [hoffset, hoffset', Text.byteLength_append, Nat.add_assoc]
    · rw [List.append_assoc]
      refine hsame _ ?_
      rw [hrest, List.head?_append, List.head?_append, hhead]
  induction h with
  | look h hcomment =>
    obtain ⟨taken, hrest, hoffset, hsame⟩ := exists_next_append h
    exact ⟨taken, hrest, hoffset, fun rest hhead => .look (hsame rest hhead) hcomment⟩
  | skip h _ ih =>
    obtain ⟨taken, hrest, hoffset, hfeeds⟩ := ih
    obtain ⟨all, hrest, hoffset, hnext⟩ := hfirst h hrest hoffset
    exact ⟨all, hrest, hoffset, fun rest hhead => .skip (hnext rest hhead) (hfeeds rest hhead)⟩
  | take h heof hcomment _ ih =>
    obtain ⟨taken, hrest, hoffset, hfeeds⟩ := ih
    obtain ⟨all, hrest, hoffset, hnext⟩ := hfirst h hrest hoffset
    exact ⟨all, hrest, hoffset, fun rest hhead =>
      .take (hnext rest hhead) heof hcomment (hfeeds rest hhead)⟩

/-- Where the end of the text is asked for, nothing is left. -/
theorem rest_of_feeds_eof {c c' : Cursor} {l : List Lexeme} {span : Span}
    (h : Feeds next c l (.ok ⟨.eof, span⟩) c') : c'.rest = [] := by
  generalize hreading : (.ok ⟨.eof, span⟩ : Reading) = reading at h
  induction h with
  | look h _ =>
    subst hreading
    exact (eq_of_next_eof h).1
  | skip _ _ ih => exact ih hreading
  | take _ _ _ _ ih => exact ih hreading

end Cursor

end Script
