import Script.Proofs.Lexeme.Spelling

/-!
# Readings look one character ahead

What a reading gives depends on the characters that it takes and on the one after them, or on there
being none, and on nothing else: another text that goes on the same way so far is read the same.

* `Cursor.exists_looksAhead_next`: one reading.
-/

namespace Script.Cursor

open Text (byteLength isBlank)

/-- A reading that takes some characters looks one further: any text that has these, and then
the same character or its end too, is read the same. -/
structure LooksAhead (f : Cursor → Reading × Cursor) (c : Cursor) (taken : List Char) : Prop where
  rest_eq : c.rest = taken ++ (f c).2.rest
  offset_eq : (f c).2.offset = c.offset + byteLength taken
  same : ∀ rest, rest.head? = (f c).2.rest.head? →
    f ⟨c.offset, taken ++ rest⟩ = ((f c).1, ⟨(f c).2.offset, rest⟩)

/-! ### Runs -/

theorem head?_dropWhile (p : Char → Bool) (cs : List Char) :
    ∀ c ∈ (cs.dropWhile p).head?, p c = false := by
  intro c hc
  have hnot := List.head?_dropWhile_not p cs
  rw [Option.mem_def.1 hc] at hnot
  simpa using hnot

/-- A run is the same in front of any text that goes on with the same character. -/
theorem dropWhile_takeWhile_append (p : Char → Bool) (offset : Nat) {cs rest : List Char}
    (hrest : rest.head? = (cs.dropWhile p).head?) :
    dropWhile ⟨offset, cs.takeWhile p ++ rest⟩ p = ⟨offset + byteLength (cs.takeWhile p), rest⟩ ∧
      (cs.takeWhile p ++ rest).takeWhile p = cs.takeWhile p := by
  refine dropWhile_append offset (List.all_eq_true.1 List.all_takeWhile) fun c hc => ?_
  rw [hrest] at hc
  exact head?_dropWhile p cs c hc

/-- What is read from the run alone looks ahead no further than to its end. -/
theorem looksAhead_run {p : Char → Bool} {f : Cursor → Reading × Cursor}
    {g : Nat → List Char → Reading}
    (hf : ∀ c, f c = (g c.offset (c.rest.takeWhile p), c.dropWhile p)) (c : Cursor) :
    LooksAhead f c (c.rest.takeWhile p) := by
  refine ⟨?_, ?_, fun rest hrest => ?_⟩
  · rw [hf]
    exact (List.takeWhile_append_dropWhile ..).symm
  · rw [hf]
    rfl
  · rw [hf] at hrest ⊢
    have hhead : rest.head? = (c.rest.dropWhile p).head? := hrest
    obtain ⟨hdrop, htake⟩ := dropWhile_takeWhile_append p c.offset hhead
    rw [hf, hdrop]
    dsimp only
    rw [htake]
    rfl

theorem looksAhead_word (c : Cursor) : LooksAhead word c (c.rest.takeWhile inWord) := by
  refine looksAhead_run (g := fun offset cs =>
    .ok ⟨(Keyword.ofText? (String.ofList cs)).elim (.name (String.ofList cs)) .keyword,
      .between offset (offset + byteLength cs)⟩) (fun c => ?_) c
  unfold word
  dsimp only
  cases Keyword.ofText? (String.ofList (c.rest.takeWhile inWord)) <;> rfl

theorem looksAhead_number (c : Cursor) : LooksAhead number c (c.rest.takeWhile Char.isDigit) := by
  refine looksAhead_run (g := fun offset cs =>
    (Integer.ofInt? (decimal cs)).elim
      (.error ⟨.integerOverflow, .between offset (offset + byteLength cs)⟩)
      fun value => .ok ⟨.integer value, .between offset (offset + byteLength cs)⟩) (fun c => ?_) c
  unfold number
  dsimp only
  cases Integer.ofInt? (decimal (c.rest.takeWhile Char.isDigit)) <;> rfl

/-- A comment, up to the end of its line. -/
def comment (c : Cursor) : Reading × Cursor :=
  c.lexeme .comment (c.dropWhile (· != '\n'))

theorem looksAhead_comment (c : Cursor) :
    LooksAhead comment c (c.rest.takeWhile (· != '\n')) :=
  looksAhead_run (g := fun offset cs =>
    .ok ⟨.comment, .between offset (offset + byteLength cs)⟩) (fun _ => rfl) c

/-! ### Strings -/

theorem eq_nil_of_head? {rest : List Char} (h : rest.head? = ([] : List Char).head?) : rest = [] :=
  List.head?_eq_none_iff.1 h

/-- A string is read up to its end, or to what is wrong in it. -/
theorem exists_stringFrom (start : Cursor) (cs : List Char) (offset : Nat) (value : List Char) :
    ∃ taken, cs = taken ++ (stringFrom start offset value cs).2.rest ∧
      (stringFrom start offset value cs).2.offset = offset + byteLength taken ∧
      ∀ start' : Cursor, start'.offset = start.offset → ∀ rest,
        rest.head? = (stringFrom start offset value cs).2.rest.head? →
        stringFrom start' offset value (taken ++ rest) =
          ((stringFrom start offset value cs).1,
            ⟨(stringFrom start offset value cs).2.offset, rest⟩) := by
  -- the cases are those of the recursion: the end of the text, the quote, and the escapes
  fun_induction stringFrom start offset value cs with
  | case1 offset value =>
    refine ⟨[], rfl, rfl, fun start' hstart rest hrest => ?_⟩
    obtain rfl := eq_nil_of_head? hrest
    simp only [List.append_nil, stringFrom, error, hstart]
  | case2 offset value rest =>
    refine ⟨['"'], rfl, rfl, fun start' hstart rest' _ => ?_⟩
    simp only [List.cons_append, List.nil_append, stringFrom, lexeme, hstart]
  | case3 offset value =>
    refine ⟨['\\'], rfl, rfl, fun start' hstart rest hrest => ?_⟩
    obtain rfl := eq_nil_of_head? hrest
    simp only [List.append_nil, stringFrom, error, hstart]
  | case4 offset value letter rest after char hchar ih =>
    obtain ⟨taken, hrest, hoffset, hsame⟩ := ih
    refine ⟨'\\' :: letter :: taken, congrArg (fun l => '\\' :: letter :: l) hrest, ?_,
      fun start' hstart rest' hrest' => ?_⟩
    · rw [hoffset, Text.byteLength_cons, Text.byteLength_cons]
      show offset + 1 + letter.utf8Size + _ = offset + (1 + _)
      omega
    · rw [List.cons_append, List.cons_append, stringFrom, hchar]
      exact hsame start' hstart rest' hrest'
  | case5 offset value letter rest after hchar =>
    refine ⟨['\\', letter], rfl, ?_, fun start' hstart rest' _ => ?_⟩
    · show offset + 1 + letter.utf8Size = offset + (1 + _)
      rw [Nat.add_assoc]
      rfl
    · rw [List.cons_append, List.cons_append, stringFrom, hchar]
      rfl
  | case6 offset value char rest h₁ h₂ h₃ ih =>
    obtain ⟨taken, hrest, hoffset, hsame⟩ := ih
    refine ⟨char :: taken, congrArg (char :: ·) hrest, ?_, fun start' hstart rest' hrest' => ?_⟩
    · rw [hoffset, Text.byteLength_cons, Nat.add_assoc]
    · -- a backslash would have been one of the cases above
      have hbackslash : char ≠ '\\' := by
        rintro rfl
        cases rest with
        | nil => exact h₂ rfl rfl
        | cons letter rest => exact h₃ letter rest rfl rfl
      rw [List.cons_append, stringFrom]
      · exact hsame start' hstart rest' hrest'
      · exact h₁
      · exact fun h _ => hbackslash h
      · exact fun _ _ h _ => hbackslash h

/-! ### Symbols -/

/-- The signs `=` and `!` stand alone unless `=` comes after them. -/
theorem longest?_alone {x : Char} {sign : Symbol}
    (hx : x = '=' ∧ sign = .assign ∨ x = '!' ∧ sign = .bang) {cs : List Char}
    (h : ∀ c ∈ cs.head?, c ≠ '=') : Symbol.longest? (x :: cs) = some (sign, cs) := by
  cases cs with
  | nil => rcases hx with ⟨rfl, rfl⟩ | ⟨rfl, rfl⟩ <;> rfl
  | cons c cs =>
    rcases hx with ⟨rfl, rfl⟩ | ⟨rfl, rfl⟩ <;>
    · rw [Symbol.longest?]
      rintro cs' h'
      exact h c rfl (List.cons.inj h').1

/-- Where a symbol begins, one is found, whatever comes after its first character. -/
theorem longest?_ne_none (sign : Symbol) (cs : List Char) :
    ∀ c ∈ sign.chars.head?, Symbol.longest? (c :: cs) ≠ none := by
  have hequal : ∀ x, x = '=' ∨ x = '!' → Symbol.longest? (x :: cs) ≠ none := by
    intro x hx hnone
    -- a second equal sign makes the two-character symbol
    by_cases h : ∀ c ∈ cs.head?, c ≠ '='
    · rcases hx with rfl | rfl
      · rw [longest?_alone (.inl ⟨rfl, rfl⟩) h] at hnone
        cases hnone
      · rw [longest?_alone (.inr ⟨rfl, rfl⟩) h] at hnone
        cases hnone
    · cases cs with
      | nil => exact h (by simp)
      | cons c cs =>
        obtain rfl : c = '=' := by simpa using h
        rcases hx with rfl | rfl <;> cases hnone
  rintro c hc
  cases sign with
  | equal => exact hequal c (.inl (Option.some.inj hc).symm)
  | assign => exact hequal c (.inl (Option.some.inj hc).symm)
  | notEqual => exact hequal c (.inr (Option.some.inj hc).symm)
  | bang => exact hequal c (.inr (Option.some.inj hc).symm)
  | _ =>
    obtain rfl := Option.some.inj hc
    rintro ⟨⟩

theorem head?_chars_of_longest? {c : Char} {cs rest : List Char} {sign : Symbol}
    (h : Symbol.longest? (c :: cs) = some (sign, rest)) : ∃ more, sign.chars = c :: more := by
  have happend := Symbol.chars_append_of_longest? h
  cases hchars : sign.chars with
  | nil => cases sign <;> cases hchars
  | cons c' more =>
    rw [hchars] at happend
    obtain ⟨rfl, -⟩ := List.cons.inj happend
    exact ⟨more, rfl⟩

theorem longest?_eq_none {c : Char} {cs : List Char} (h : Symbol.longest? (c :: cs) = none)
    (cs' : List Char) : Symbol.longest? (c :: cs') = none := by
  cases h' : Symbol.longest? (c :: cs') with
  | none => rfl
  | some found =>
    obtain ⟨more, hchars⟩ := head?_chars_of_longest? h'
    exact absurd h (longest?_ne_none found.1 cs c (by rw [hchars]; rfl))

/-- The longest symbol is the same in front of any text that goes on with the same character. -/
theorem longest?_append {cs rest rest' : List Char} {sign : Symbol}
    (h : Symbol.longest? cs = some (sign, rest)) (hrest : rest'.head? = rest.head?) :
    Symbol.longest? (sign.chars ++ rest') = some (sign, rest') := by
  obtain rfl := Symbol.chars_append_of_longest? h
  have hnext : (sign = .assign ∨ sign = .bang) → ∀ c ∈ rest'.head?, c ≠ '=' := by
    rintro hsign c hc rfl
    -- then the longer symbol would have been found
    rw [hrest] at hc
    cases rest with
    | nil => cases hc
    | cons c rest =>
      obtain rfl := Option.some.inj hc
      rcases hsign with rfl | rfl <;> cases h
  cases sign with
  | assign => exact longest?_alone (.inl ⟨rfl, rfl⟩) (hnext (.inl rfl))
  | bang => exact longest?_alone (.inr ⟨rfl, rfl⟩) (hnext (.inr rfl))
  | _ => rfl

/-! ### Readings -/

theorem LooksAhead.congr {f g : Cursor → Reading × Cursor} {c : Cursor} {taken : List Char}
    (h : LooksAhead g c taken) (hc : f c = g c)
    (hrest : ∀ rest, rest.head? = (g c).2.rest.head? →
      f ⟨c.offset, taken ++ rest⟩ = g ⟨c.offset, taken ++ rest⟩) : LooksAhead f c taken where
  rest_eq := by rw [hc]; exact h.rest_eq
  offset_eq := by rw [hc]; exact h.offset_eq
  same rest hsame := by
    rw [hc] at hsame ⊢
    rw [hrest rest hsame]
    exact h.same rest hsame

/-- Where no comment and no string begins, a word, a number or a symbol is read, or nothing. -/
theorem read_of_ne {char : Char} (hquote : char ≠ '"') (offset : Nat) {cs : List Char}
    (hcomment : ∀ cs', char :: cs ≠ '/' :: '/' :: cs') :
    read ⟨offset, char :: cs⟩ =
      if beginsWord char then word ⟨offset, char :: cs⟩
      else if char.isDigit then number ⟨offset, char :: cs⟩
      else match Symbol.longest? (char :: cs) with
        | some (sign, after) =>
          lexeme ⟨offset, char :: cs⟩ (.symbol sign) ⟨offset + byteLength sign.chars, after⟩
        | none =>
          error ⟨offset, char :: cs⟩ (.unrecognized char) ⟨offset + char.utf8Size, cs⟩ := by
  rw [read]
  dsimp only
  split
  · next h => cases h
  · next h => exact absurd h (hcomment _)
  · next h => exact absurd (List.cons.inj h).1 hquote
  · next h =>
    obtain ⟨rfl, rfl⟩ := List.cons.inj h
    rfl

/-- The lexeme that begins right at a place is read with one character after it. -/
theorem exists_looksAhead_read (c : Cursor) : ∃ taken, LooksAhead read c taken := by
  obtain ⟨offset, cs⟩ := c
  rcases cs with _ | ⟨char, cs⟩
  · refine ⟨[], rfl, rfl, fun rest hrest => ?_⟩
    obtain rfl := eq_nil_of_head? hrest
    rfl
  by_cases hquote : char = '"'
  · -- a string
    subst hquote
    obtain ⟨taken, hrest, hoffset, hsame⟩ :=
      exists_stringFrom ⟨offset, '"' :: cs⟩ cs (offset + 1) []
    refine ⟨'"' :: taken, congrArg ('"' :: ·) hrest, ?_, fun rest hrest' => ?_⟩
    · rw [Text.byteLength_cons, ← Nat.add_assoc]
      exact hoffset
    · exact hsame ⟨offset, '"' :: (taken ++ rest)⟩ rfl rest hrest'
  by_cases hcomment : ∃ cs', char :: cs = '/' :: '/' :: cs'
  · -- a comment
    obtain ⟨cs, h⟩ := hcomment
    obtain ⟨rfl, rfl⟩ := List.cons.inj h
    exact ⟨_, (looksAhead_comment ⟨offset, '/' :: '/' :: cs⟩).congr rfl fun rest _ => rfl⟩
  have hnocomment : ∀ cs', char :: cs ≠ '/' :: '/' :: cs' := fun cs' h => hcomment ⟨cs', h⟩
  by_cases hword : inWord char = true
  · by_cases hbegins : beginsWord char = true
    · -- a word
      have hread (cs : List Char) : read ⟨offset, char :: cs⟩ = word ⟨offset, char :: cs⟩ := by
        rw [read_of_inWord hword, if_pos hbegins]
      refine ⟨_, (looksAhead_word ⟨offset, char :: cs⟩).congr (hread cs) fun rest _ => ?_⟩
      dsimp only
      rw [List.takeWhile_cons, if_pos hword]
      exact hread _
    · -- a number
      have hread (cs : List Char) : read ⟨offset, char :: cs⟩ = number ⟨offset, char :: cs⟩ := by
        rw [read_of_inWord hword, if_neg hbegins]
      have hdigit := (inWord_iff.1 hword).resolve_left hbegins
      refine ⟨_, (looksAhead_number ⟨offset, char :: cs⟩).congr (hread cs) fun rest _ => ?_⟩
      dsimp only
      rw [List.takeWhile_cons, if_pos hdigit]
      exact hread _
  have hnone : ¬ beginsWord char = true ∧ ¬ char.isDigit = true :=
    not_or.1 fun h => hword (inWord_iff.2 h)
  cases hlongest : Symbol.longest? (char :: cs) with
  | some found =>
    -- a symbol
    obtain ⟨sign, after⟩ := found
    have hread : read ⟨offset, char :: cs⟩ = lexeme ⟨offset, char :: cs⟩ (.symbol sign)
        ⟨offset + byteLength sign.chars, after⟩ := by
      rw [read_of_ne hquote offset hnocomment, if_neg hnone.1, if_neg hnone.2, hlongest]
    have happend := Symbol.chars_append_of_longest? hlongest
    refine ⟨sign.chars, by rw [hread]; exact happend.symm, by rw [hread]; rfl, fun rest hrest => ?_⟩
    rw [hread] at hrest ⊢
    have hlongest' := longest?_append hlongest hrest
    obtain ⟨more, hmore⟩ := head?_chars_of_longest? hlongest
    dsimp only
    rw [hmore, List.cons_append] at hlongest' ⊢
    have hnocomment' : ∀ cs', char :: (more ++ rest) ≠ '/' :: '/' :: cs' := by
      intro cs' h
      obtain ⟨rfl, h⟩ := List.cons.inj h
      obtain rfl : more = [] := by cases sign <;> cases hmore; rfl
      -- the text goes on with a second slash, as it did at first
      obtain rfl : rest = '/' :: cs' := (List.cons.inj h).2
      obtain ⟨after', rfl⟩ := List.head?_eq_some_iff.1 hrest.symm
      exact hnocomment after' (by rw [← happend, hmore]; rfl)
    rw [read_of_ne hquote offset hnocomment', if_neg hnone.1, if_neg hnone.2, hlongest', ← hmore]
    rfl
  | none =>
    have hread (cs' : List Char) : read ⟨offset, char :: cs'⟩ =
        error ⟨offset, char :: cs'⟩ (.unrecognized char) ⟨offset + char.utf8Size, cs'⟩ := by
      have hlongest' := longest?_eq_none hlongest cs'
      have hnocomment' : ∀ cs'', char :: cs' ≠ '/' :: '/' :: cs'' := by
        rintro cs'' h
        rw [h] at hlongest'
        cases hlongest'
      rw [read_of_ne hquote offset hnocomment', if_neg hnone.1, if_neg hnone.2, hlongest']
    refine ⟨[char], by rw [hread]; rfl, by rw [hread]; rfl, fun rest _ => ?_⟩
    rw [hread, List.cons_append, hread]
    rfl

/-- **A reading looks one character ahead.** -/
theorem exists_looksAhead_next (c : Cursor) : ∃ taken, LooksAhead next c taken := by
  obtain ⟨taken, hread⟩ := exists_looksAhead_read (c.dropWhile isBlank)
  refine ⟨c.rest.takeWhile isBlank ++ taken, ?_, ?_, fun rest hrest => ?_⟩
  · rw [List.append_assoc]
    exact (List.takeWhile_append_dropWhile ..).symm.trans (congrArg _ hread.rest_eq)
  · rw [Text.byteLength_append, ← Nat.add_assoc]
    exact hread.offset_eq
  · -- after the blanks the two texts go on with the same character
    have hhead : (taken ++ rest).head? = (c.rest.dropWhile isBlank).head? := by
      rw [show c.rest.dropWhile isBlank = taken ++ _ from hread.rest_eq, List.head?_append,
        List.head?_append]
      exact congrArg _ hrest
    have hdrop := (dropWhile_takeWhile_append isBlank c.offset hhead).1
    rw [List.append_assoc, next, hdrop]
    exact hread.same rest hrest

end Script.Cursor
