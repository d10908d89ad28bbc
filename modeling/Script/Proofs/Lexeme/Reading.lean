import Script.Lexeme.Stream
import Script.Proofs.Span

/-!
# Readings one by one

Every reading but the one at the end of the text takes a character, so the number of readings that
`Cursor.readings` allows for is always enough.

* `Cursor.length_next_lt`: a reading takes a character, or it is the end of the text;
* `Cursor.readings_cons`, `Cursor.readings_eof`: the readings of a text, one by one;
* `Cursor.next_blank`: blanks are passed.
-/

namespace Script.Cursor

open Text (byteLength isBlank)

/-- A reading is the end of the text. -/
def IsEof (reading : Reading) : Prop :=
  ∃ span, reading = .ok ⟨.eof, span⟩

theorem length_dropWhile_le (c : Cursor) (p : Char → Bool) :
    (c.dropWhile p).rest.length ≤ c.rest.length :=
  (List.dropWhile_sublist p).length_le

/-- A run that begins is not empty. -/
theorem length_dropWhile_lt {c : Cursor} {p : Char → Bool} {x : Char} {rest : List Char}
    (hc : c.rest = x :: rest) (hx : p x = true) : (c.dropWhile p).rest.length < c.rest.length := by
  have hrest := (List.dropWhile_sublist (l := rest) p).length_le
  rw [dropWhile, hc, List.dropWhile_cons, if_pos hx, List.length_cons]
  exact Nat.lt_succ_of_le hrest

theorem length_stringFrom_le (start : Cursor) : ∀ (cs : List Char) (offset : Nat)
    (value : List Char), (start.stringFrom offset value cs).2.rest.length ≤ cs.length := by
  intro cs offset value
  fun_induction stringFrom start offset value cs with
  | case1 offset value => exact Nat.le_refl _
  | case2 offset value rest => exact Nat.le_succ _
  | case3 offset value => exact Nat.zero_le _
  | case4 offset value letter rest after char hchar ih =>
    simp only [List.length_cons]
    omega
  | case5 offset value letter rest after hchar =>
    simp only [error, List.length_cons]
    omega
  | case6 offset value char rest h₁ h₂ h₃ ih =>
    simp only [List.length_cons]
    omega

/-- Past the end of a text every reading is its end. -/
theorem length_read_lt (c : Cursor) :
    IsEof c.read.1 ∨ c.read.2.rest.length < c.rest.length := by
  unfold read
  split
  · exact .inl ⟨_, rfl⟩
  · next hrest =>
    exact .inr (length_dropWhile_lt hrest (by decide))
  · next rest hrest =>
    have hle := length_stringFrom_le c rest (c.offset + 1) []
    rw [hrest, List.length_cons]
    exact .inr (by omega)
  · next char rest hslash hquote hrest =>
    right
    split
    · next hword =>
      have hin : inWord char = true := by
        rw [beginsWord, Bool.or_eq_true] at hword
        rw [inWord, Char.isAlphanum, Bool.or_eq_true, Bool.or_eq_true]
        exact hword.imp_left .inl
      exact length_dropWhile_lt hrest hin
    · split
      · next hdigit =>
        unfold number
        dsimp only
        split <;> exact length_dropWhile_lt hrest hdigit
      · split
        · next sign after hsign =>
          -- a symbol has at least one character, and what is left comes after it
          have happend := congrArg List.length (Symbol.chars_append_of_longest? hsign)
          have hpos : 0 < sign.chars.length := by cases sign <;> decide
          rw [List.length_append] at happend
          rw [hrest]
          show after.length < _
          omega
        · rw [hrest]
          exact Nat.lt_succ_self _

/-- **A reading takes a character**, or it is the end of the text. -/
theorem length_next_lt (c : Cursor) :
    IsEof c.next.1 ∨ c.next.2.rest.length < c.rest.length := by
  have hle := length_dropWhile_le c isBlank
  exact (length_read_lt (c.dropWhile isBlank)).imp_right fun h => by
    rw [next]
    omega

/-! ### All readings -/

theorem readingsWithin_eof {c c' : Cursor} {reading : Reading} (n : Nat)
    (hnext : c.next = (reading, c')) (heof : IsEof reading) :
    readingsWithin (n + 1) c = [reading] := by
  obtain ⟨span, rfl⟩ := heof
  rw [readingsWithin, hnext]

theorem readingsWithin_cons {c c' : Cursor} {reading : Reading} (n : Nat)
    (hnext : c.next = (reading, c')) (heof : ¬ IsEof reading) :
    readingsWithin (n + 1) c = reading :: readingsWithin n c' := by
  rw [readingsWithin, hnext]
  dsimp only
  split
  · next span => exact absurd ⟨span, rfl⟩ heof
  · rfl

/-- Any number above that of the characters is enough. -/
theorem readingsWithin_eq : ∀ (n m : Nat) (c : Cursor), c.rest.length < n → c.rest.length < m →
    readingsWithin n c = readingsWithin m c
  | 0, _, _, hn, _ => by omega
  | _, 0, _, _, hm => by omega
  | n + 1, m + 1, c, hn, hm => by
    rcases hnext : c.next with ⟨reading, c'⟩
    by_cases heof : IsEof reading
    · rw [readingsWithin_eof n hnext heof, readingsWithin_eof m hnext heof]
    · -- a character less on both sides
      have hlt : c'.rest.length < c.rest.length := by
        have h := c.length_next_lt
        rw [hnext] at h
        exact h.resolve_left heof
      rw [readingsWithin_cons n hnext heof, readingsWithin_cons m hnext heof,
        readingsWithin_eq n m c' (by omega) (by omega)]

theorem readings_eof {c c' : Cursor} {reading : Reading} (hnext : c.next = (reading, c'))
    (heof : IsEof reading) : c.readings = [reading] :=
  readingsWithin_eof _ hnext heof

theorem readings_cons {c c' : Cursor} {reading : Reading} (hnext : c.next = (reading, c'))
    (heof : ¬ IsEof reading) : c.readings = reading :: c'.readings := by
  have hlt : c'.rest.length < c.rest.length := by
    have h := c.length_next_lt
    rw [hnext] at h
    exact h.resolve_left heof
  rw [readings, readingsWithin_cons _ hnext heof, readings,
    readingsWithin_eq c.rest.length (c'.rest.length + 1) c' hlt (Nat.lt_succ_self _)]

/-- A lexeme among the readings has been read somewhere. -/
theorem exists_next_of_mem_readingsWithin {x : Lexeme} : ∀ (n : Nat) (c : Cursor),
    .ok x ∈ readingsWithin n c → ∃ c' c'', next c' = (.ok x, c'')
  | 0, _, h => by cases h
  | n + 1, c, h => by
    rcases hnext : c.next with ⟨reading, c'⟩
    by_cases heof : IsEof reading
    · rw [readingsWithin_eof n hnext heof] at h
      obtain rfl := List.mem_singleton.1 h
      exact ⟨c, c', hnext⟩
    · rw [readingsWithin_cons n hnext heof] at h
      rcases List.mem_cons.1 h with rfl | h
      · exact ⟨c, c', hnext⟩
      · exact exists_next_of_mem_readingsWithin n c' h

theorem exists_next_of_mem_readings {x : Lexeme} {c : Cursor} (h : .ok x ∈ c.readings) :
    ∃ c' c'', next c' = (.ok x, c'') :=
  exists_next_of_mem_readingsWithin _ c h

/-! ### Blanks -/

/-- **A blank before a lexeme is passed.** -/
theorem next_blank {b : Char} (hb : isBlank b = true) (offset : Nat) (cs : List Char) :
    next ⟨offset, b :: cs⟩ = next ⟨offset + b.utf8Size, cs⟩ := by
  rw [next, next, dropWhile, dropWhile]
  simp only [List.takeWhile_cons, List.dropWhile_cons, if_pos hb, Text.byteLength_cons,
    Nat.add_assoc]

/-- Where no blank stands, a lexeme begins right there. -/
theorem next_eq_read {x : Char} (hx : isBlank x = false) (offset : Nat) (cs : List Char) :
    next ⟨offset, x :: cs⟩ = read ⟨offset, x :: cs⟩ := by
  rw [next, dropWhile]
  simp only [List.takeWhile_cons, List.dropWhile_cons, hx]
  rfl

theorem readings_blank {b : Char} (hb : isBlank b = true) (offset : Nat) (cs : List Char) :
    readings ⟨offset, b :: cs⟩ = readings ⟨offset + b.utf8Size, cs⟩ := by
  rcases hnext : next ⟨offset + b.utf8Size, cs⟩ with ⟨reading, c'⟩
  have hnext' := (next_blank hb offset cs).trans hnext
  by_cases heof : IsEof reading
  · rw [readings_eof hnext heof, readings_eof hnext' heof]
  · rw [readings_cons hnext heof, readings_cons hnext' heof]

theorem readings_blanks {gap : List Char} (hgap : ∀ c ∈ gap, isBlank c = true) (offset : Nat)
    (cs : List Char) :
    readings ⟨offset, gap ++ cs⟩ = readings ⟨offset + byteLength gap, cs⟩ := by
  induction gap generalizing offset with
  | nil => rfl
  | cons b gap ih =>
    obtain ⟨hb, hgap⟩ := List.forall_mem_cons.1 hgap
    rw [List.cons_append, readings_blank hb, ih hgap, Text.byteLength_cons, Nat.add_assoc]

/-- A text that stands behind many spaces. -/
theorem readings_spaces (offset n : Nat) (cs : List Char) :
    readings ⟨offset, List.replicate n ' ' ++ cs⟩ = readings ⟨offset + n, cs⟩ := by
  have hblank : ∀ c ∈ List.replicate n ' ', isBlank c = true := by
    intro c hc
    obtain rfl := List.eq_of_mem_replicate hc
    decide
  rw [readings_blanks hblank, Text.byteLength_replicate n rfl]

end Script.Cursor

namespace Script.LexemeStream

/-- A lexeme that is neither a comment nor the end stands in front of those after it. -/
theorem ofReadings_cons (offset : UInt32) {token : Token} {span : Span} {rest : List Reading}
    (heof : token ≠ .eof) (hcomment : token ≠ .comment) :
    ofReadings offset (.ok ⟨token, span⟩ :: rest) =
      { ofReadings span.stop rest with
        lexemes := ⟨token, span⟩ :: (ofReadings span.stop rest).lexemes } := by
  cases token with
  | eof => exact absurd rfl heof
  | comment => exact absurd rfl hcomment
  | _ => rfl

/-- Where a stream is said to begin does not count, as long as something is read. -/
theorem ofReadings_start (offset offset' : UInt32) (reading : Reading) (rest : List Reading) :
    ofReadings offset (reading :: rest) = ofReadings offset' (reading :: rest) := by
  rcases reading with error | ⟨token, span⟩
  · rfl
  · cases token <;> rfl

/-- The lexemes of a stream are among its readings, comments and the end of the text aside. -/
theorem mem_of_mem_ofReadings {x : Lexeme} : ∀ {offset : UInt32} {readings : List Reading},
    x ∈ (ofReadings offset readings).lexemes →
      .ok x ∈ readings ∧ x.token ≠ .eof ∧ x.token ≠ .comment
  | _, [], h => by cases h
  | _, .error _ :: _, h => by cases h
  | offset, .ok ⟨token, span⟩ :: rest, h => by
    have ih (h : x ∈ (ofReadings span.stop rest).lexemes) := mem_of_mem_ofReadings h
    by_cases heof : token = .eof
    · subst heof
      cases h
    · by_cases hcomment : token = .comment
      · subst hcomment
        obtain ⟨hmem, htoken⟩ := ih h
        exact ⟨List.mem_cons_of_mem _ hmem, htoken⟩
      · rw [ofReadings_cons offset heof hcomment] at h
        rcases List.mem_cons.1 h with rfl | h
        · exact ⟨List.mem_cons_self, heof, hcomment⟩
        · obtain ⟨hmem, htoken⟩ := ih h
          exact ⟨List.mem_cons_of_mem _ hmem, htoken⟩

end Script.LexemeStream
