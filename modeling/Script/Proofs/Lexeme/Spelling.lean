import Script.Proofs.Lexeme.Reading

/-!
# Tokens read back

The literal of a token is a text that is read as that token again, unless what comes after it would
be read with it. Strings are an exception: what is shown of an unprintable character cannot be read.

* `Token.Regular`: the tokens that texts hold;
* `Token.Plain`: the tokens whose literal can be read;
* `Cursor.next_literal`: the literal of a token is read as the token;
* `Spells`: which tokens a text is read as.
-/

namespace Script

open Text (byteLength isBlank quoteChar)
open Cursor (beginsWord inWord)

/-! ### Tokens -/

/-- A word: word characters, of which the first is no digit. -/
def IsWord (cs : List Char) : Prop :=
  (∃ c rest, cs = c :: rest ∧ beginsWord c = true) ∧ ∀ c ∈ cs, inWord c = true

/-- A character that is shown inside quotes in a way that can be read: as itself or by one of the
escapes that strings may hold. -/
def Text.Plain (c : Char) : Prop :=
  quoteChar c = [c] ∨ c = '"' ∨ c = '\\' ∨ c = '\n' ∨ c = '\t'

namespace Token

/-- The tokens that texts hold. A name is a word that is no keyword, and an integer has no
sign. -/
def Regular : Token → Prop
  | name text => IsWord text.toList ∧ Keyword.ofText? text = none
  | integer value => 0 ≤ Int64.toInt value
  | comment => False
  | eof => False
  | _ => True

/-- The tokens whose literal can be read. -/
def Plain : Token → Prop
  | string value => ∀ c ∈ value.toList, Text.Plain c
  | _ => True

/-- The characters that cannot follow the literal of a token: they would be read with it. -/
def joins : Token → Char → Bool
  | name _, c => inWord c
  | keyword _, c => inWord c
  | integer _, c => c.isDigit
  | symbol .assign, c => c == '='
  | symbol .bang, c => c == '='
  | symbol .slash, c => c == '/'
  | _, _ => false

/-- A text may follow the literal of a token. -/
def Parts (token : Token) (rest : List Char) : Prop :=
  ∀ c ∈ rest.head?, token.joins c = false

end Token

/-! ### Characters -/

theorem inWord_iff {c : Char} : inWord c = true ↔ beginsWord c = true ∨ c.isDigit = true := by
  rw [inWord, beginsWord, Char.isAlphanum]
  simp only [Bool.or_eq_true]
  exact or_right_comm

theorem toNat_of_beginsWord {c : Char} (h : beginsWord c = true) :
    (65 ≤ c.toNat ∧ c.toNat ≤ 90) ∨ c.toNat = 95 ∨ (97 ≤ c.toNat ∧ c.toNat ≤ 122) := by
  have hcases : ((decide (c.val ≥ 'A'.val ∧ c.val ≤ 'Z'.val) ||
      decide (c.val ≥ 'a'.val) && decide (c.val ≤ 'z'.val)) || c == '_') = true := h
  simp only [Bool.or_eq_true, Bool.and_eq_true, decide_eq_true_eq, beq_iff_eq,
    UInt32.le_iff_toNat_le, ge_iff_le] at hcases
  change ((65 ≤ c.toNat ∧ c.toNat ≤ 90) ∨ (97 ≤ c.toNat ∧ c.toNat ≤ 122)) ∨ c = '_' at hcases
  rcases hcases with h | rfl
  · omega
  · decide

theorem toNat_of_isDigit {c : Char} (h : c.isDigit = true) : 48 ≤ c.toNat ∧ c.toNat ≤ 57 :=
  Char.isDigit_iff_toNat.1 h

theorem beginsWord_of_isDigit {c : Char} (h : c.isDigit = true) : beginsWord c = false := by
  have hdigit := toNat_of_isDigit h
  rw [← Bool.not_eq_true]
  intro hword
  have hletter := toNat_of_beginsWord hword
  omega

theorem blankRanges_ascending : Text.blankRanges.Ascending := by
  unfold Text.Ranges.Ascending
  decide

/-- No blank stands among the printable characters of one byte. -/
theorem isBlank_eq_false {c : Char} (hlow : 33 ≤ c.toNat) (hhigh : c.toNat ≤ 126) :
    isBlank c = false := by
  rw [← Bool.not_eq_true, isBlank, Text.Ranges.contains_iff blankRanges_ascending]
  rintro ⟨r, hr, h₁, h₂⟩
  have hranges : ∀ r ∈ Text.blankRanges, r.2 < 33 ∨ 126 < r.1 := by decide
  rcases hranges r hr with h | h <;> omega

/-! ### The longest run -/

/-- A run ends where a text goes on with a character of another class. -/
theorem Cursor.dropWhile_append {p : Char → Bool} {cs rest : List Char} (offset : Nat)
    (hcs : ∀ c ∈ cs, p c = true) (hrest : ∀ c ∈ rest.head?, p c = false) :
    dropWhile ⟨offset, cs ++ rest⟩ p = ⟨offset + byteLength cs, rest⟩ ∧
      (cs ++ rest).takeWhile p = cs := by
  have htake : rest.takeWhile p = [] ∧ rest.dropWhile p = rest := by
    cases rest with
    | nil => exact ⟨rfl, rfl⟩
    | cons c rest =>
      have hc := hrest c rfl
      rw [List.takeWhile_cons, List.dropWhile_cons, hc]
      exact ⟨rfl, rfl⟩
  have hrun : (cs ++ rest).takeWhile p = cs := by
    rw [List.takeWhile_append_of_pos hcs, htake.1, List.append_nil]
  rw [dropWhile, hrun, List.dropWhile_append_of_pos hcs, htake.2]
  exact ⟨rfl, rfl⟩

namespace Cursor

/-! ### Words and numbers -/

/-- A text that begins with a word character is neither a string nor a comment. -/
theorem read_of_inWord {c : Char} (hc : inWord c = true) (offset : Nat) (cs : List Char) :
    read ⟨offset, c :: cs⟩ =
      if beginsWord c then word ⟨offset, c :: cs⟩ else number ⟨offset, c :: cs⟩ := by
  -- neither a slash nor a quote stands in a word
  have hslash : c ≠ '/' := by
    rintro rfl
    cases hc
  have hquote : c ≠ '"' := by
    rintro rfl
    cases hc
  rw [read]
  dsimp only
  split
  · next h => cases h
  · next h => exact absurd (List.cons.inj h).1 hslash
  · next h => exact absurd (List.cons.inj h).1 hquote
  · next h =>
    obtain ⟨rfl, rfl⟩ := List.cons.inj h
    split
    · rfl
    · next hword => rw [if_pos ((inWord_iff.1 hc).resolve_left hword)]

theorem next_of_inWord {c : Char} (hc : inWord c = true) (offset : Nat) (cs : List Char) :
    next ⟨offset, c :: cs⟩ =
      if beginsWord c then word ⟨offset, c :: cs⟩ else number ⟨offset, c :: cs⟩ := by
  have hblank : isBlank c = false := by
    rcases inWord_iff.1 hc with h | h
    · have hletter := toNat_of_beginsWord h
      exact isBlank_eq_false (by omega) (by omega)
    · have hdigit := toNat_of_isDigit h
      exact isBlank_eq_false (by omega) (by omega)
  rw [next_eq_read hblank, read_of_inWord hc]

theorem next_word {cs rest : List Char} (offset : Nat) (hcs : IsWord cs)
    (hrest : ∀ c ∈ rest.head?, inWord c = false) :
    next ⟨offset, cs ++ rest⟩ = lexeme ⟨offset, cs ++ rest⟩
      (match Keyword.ofText? (String.ofList cs) with
        | some keyword => .keyword keyword
        | none => .name (String.ofList cs)) ⟨offset + byteLength cs, rest⟩ := by
  obtain ⟨⟨c, cs, rfl, hc⟩, hall⟩ := hcs
  obtain ⟨hdrop, htake⟩ := dropWhile_append offset hall hrest
  -- the keyword or the name is decided by the run of word characters, which is the word itself
  rw [List.cons_append] at hdrop htake
  rw [List.cons_append, next_of_inWord (inWord_iff.2 (.inl hc)), if_pos hc, word, hdrop]
  dsimp only
  generalize (c :: (cs ++ rest)).takeWhile inWord = taken at htake ⊢
  subst htake
  rfl

/-- A run of digits is read as its number, or as an overflow. -/
theorem next_digits {slice rest : List Char} (offset : Nat) (hne : slice ≠ [])
    (hslice : ∀ c ∈ slice, c.isDigit = true) (hrest : ∀ c ∈ rest.head?, c.isDigit = false) :
    next ⟨offset, slice ++ rest⟩ =
      match Integer.ofInt? (Nat.ofDigitChars 10 slice 0) with
      | some value =>
        lexeme ⟨offset, slice ++ rest⟩ (.integer value) ⟨offset + byteLength slice, rest⟩
      | none =>
        error ⟨offset, slice ++ rest⟩ .integerOverflow ⟨offset + byteLength slice, rest⟩ := by
  have hdecimal : decimal slice = Nat.ofDigitChars 10 slice 0 := Nat.ofDigitChars_eq_foldl.symm
  obtain ⟨hdrop, htake⟩ := dropWhile_append offset hslice hrest
  obtain ⟨c, cs, rfl⟩ := List.exists_cons_of_ne_nil hne
  have hc : c.isDigit = true := hslice c List.mem_cons_self
  have hnext := next_of_inWord (inWord_iff.2 (.inr hc)) offset (cs ++ rest)
  rw [beginsWord_of_isDigit hc, if_neg Bool.false_ne_true, ← List.cons_append] at hnext
  have hvalue : decimal ((c :: cs ++ rest).takeWhile Char.isDigit) =
      Nat.ofDigitChars 10 (c :: cs) 0 := by rw [htake, hdecimal]
  rw [hnext, number, hdrop]
  cases hresult : Integer.ofInt? (Nat.ofDigitChars 10 (c :: cs) 0) <;>
    simp only [hvalue, hresult]

theorem next_number {n : Nat} {value : Integer} {rest : List Char} (offset : Nat)
    (hvalue : Integer.ofInt? n = some value) (hrest : ∀ c ∈ rest.head?, c.isDigit = false) :
    next ⟨offset, Nat.toDigits 10 n ++ rest⟩ = lexeme ⟨offset, Nat.toDigits 10 n ++ rest⟩
      (.integer value) ⟨offset + byteLength (Nat.toDigits 10 n), rest⟩ := by
  have hall : ∀ c ∈ Nat.toDigits 10 n, c.isDigit = true := fun c hc =>
    Nat.isDigit_of_mem_toDigits (by decide) (by decide) hc
  have hnext := next_digits offset Nat.toDigits_ne_nil hall hrest
  rw [Nat.ofDigitChars_ten_toDigits, hvalue] at hnext
  exact hnext

/-! ### Strings -/

theorem stringFrom_plain (start : Cursor) {c : Char} (hc : Text.Plain c) (offset : Nat)
    (value rest : List Char) :
    stringFrom start offset value (quoteChar c ++ rest) =
      stringFrom start (offset + byteLength (quoteChar c)) (c :: value) rest := by
  rcases hc with hc | rfl | rfl | rfl | rfl
  · have hquote : c ≠ '"' := by
      rintro rfl
      cases hc
    have hbackslash : c ≠ '\\' := by
      rintro rfl
      cases hc
    rw [hc, List.singleton_append, stringFrom]
    · rfl
    · exact hquote
    · exact fun h _ => hbackslash h
    · exact fun _ _ h _ => hbackslash h
  all_goals rfl

theorem stringFrom_quoted (start : Cursor) : ∀ (cs : List Char) (offset : Nat)
    (value rest : List Char), (∀ c ∈ cs, Text.Plain c) →
    stringFrom start offset value (cs.flatMap quoteChar ++ '"' :: rest) =
      start.lexeme (.string (String.ofList (value.reverse ++ cs)))
        ⟨offset + byteLength (cs.flatMap quoteChar) + 1, rest⟩
  | [], offset, value, rest, _ => by
    rw [List.append_nil]
    rfl
  | c :: cs, offset, value, rest, hcs => by
    rw [List.flatMap_cons, List.append_assoc, stringFrom_plain start (hcs c List.mem_cons_self),
      stringFrom_quoted start cs _ _ rest fun d hd => hcs d (List.mem_cons_of_mem c hd),
      Text.byteLength_append, List.reverse_cons, List.append_assoc, Nat.add_assoc offset]
    rfl

theorem next_quoted {cs : List Char} (offset : Nat) (rest : List Char)
    (hcs : ∀ c ∈ cs, Text.Plain c) :
    next ⟨offset, Text.quoteChars cs ++ rest⟩ =
      lexeme ⟨offset, Text.quoteChars cs ++ rest⟩ (.string (String.ofList cs))
        ⟨offset + byteLength (Text.quoteChars cs), rest⟩ := by
  have happend : Text.quoteChars cs ++ rest = '"' :: (cs.flatMap quoteChar ++ '"' :: rest) := by
    rw [Text.quoteChars, List.cons_append, List.append_assoc]
    rfl
  have hlength : byteLength (Text.quoteChars cs) = 1 + byteLength (cs.flatMap quoteChar) + 1 := by
    rw [Text.quoteChars, Text.byteLength_cons, Text.byteLength_append, Nat.add_assoc]
    rfl
  rw [happend, next_eq_read (by decide)]
  show stringFrom _ (offset + 1) [] _ = _
  rw [stringFrom_quoted _ cs _ _ rest hcs, hlength, List.reverse_nil, List.nil_append,
    Nat.add_assoc offset, Nat.add_assoc offset]

/-! ### Symbols -/

/-- A symbol is read where no blank, word, number, string or comment begins. -/
theorem next_of_longest? {c : Char} {cs rest : List Char} {sign : Symbol} (offset : Nat)
    (hblank : isBlank c = false) (hword : inWord c = false) (hquote : c ≠ '"')
    (hcomment : ∀ cs', c :: cs ≠ '/' :: '/' :: cs')
    (hsign : Symbol.longest? (c :: cs) = some (sign, rest)) :
    next ⟨offset, c :: cs⟩ =
      lexeme ⟨offset, c :: cs⟩ (.symbol sign) ⟨offset + byteLength sign.chars, rest⟩ := by
  have hnone : ¬ (beginsWord c = true ∨ c.isDigit = true) := by
    rw [← inWord_iff, hword]
    simp
  rw [next_eq_read hblank, read]
  dsimp only
  split
  · next h => cases h
  · next h => exact absurd h (hcomment _)
  · next h => exact absurd (List.cons.inj h).1 hquote
  · next h =>
    obtain ⟨rfl, rfl⟩ := List.cons.inj h
    rw [if_neg fun hbegins => hnone (.inl hbegins), if_neg fun hdigit => hnone (.inr hdigit), hsign]

theorem next_symbol (sign : Symbol) (offset : Nat) (rest : List Char)
    (hrest : (Token.symbol sign).Parts rest) :
    next ⟨offset, sign.chars ++ rest⟩ = lexeme ⟨offset, sign.chars ++ rest⟩ (.symbol sign)
      ⟨offset + byteLength sign.chars, rest⟩ := by
  rcases rest with _ | ⟨c, rest⟩
  · cases sign <;> rfl
  · have hc : (Token.symbol sign).joins c = false := hrest c rfl
    cases sign with
    | assign =>
      -- `=` and `!` are read alone, unless another `=` comes after them
      have hlongest : Symbol.longest? ('=' :: c :: rest) = some (.assign, c :: rest) := by
        rw [Symbol.longest?]
        rintro rest' h
        obtain ⟨rfl, -⟩ := List.cons.inj h
        cases hc
      exact next_of_longest? offset rfl rfl (by decide) (by simp) hlongest
    | bang =>
      have hlongest : Symbol.longest? ('!' :: c :: rest) = some (.bang, c :: rest) := by
        rw [Symbol.longest?]
        rintro rest' h
        obtain ⟨rfl, -⟩ := List.cons.inj h
        cases hc
      exact next_of_longest? offset rfl rfl (by decide) (by simp) hlongest
    | slash =>
      -- two slashes would begin a comment
      refine next_of_longest? offset rfl rfl (by decide) (fun rest' h => ?_) rfl
      obtain ⟨rfl, -⟩ := List.cons.inj (List.cons.inj h).2
      cases hc
    | _ => rfl

/-! ### Literals -/

theorem isWord_text (word : Keyword) : IsWord word.text.toList := by
  have hall : word.text.toList.all inWord = true := by cases word <;> rfl
  refine ⟨?_, List.all_eq_true.1 hall⟩
  cases word <;> exact ⟨_, _, rfl, rfl⟩

theorem ofText?_text (word : Keyword) : Keyword.ofText? word.text = some word := by
  cases word <;> decide

/-- **The literal of a token is read as the token**, where the text parts it from what comes after
it. -/
theorem next_literal {token : Token} {rest : List Char} (offset : Nat) (hregular : token.Regular)
    (hplain : token.Plain) (hrest : token.Parts rest) :
    next ⟨offset, token.literal.toList ++ rest⟩ =
      lexeme ⟨offset, token.literal.toList ++ rest⟩ token
        ⟨offset + byteLength token.literal.toList, rest⟩ := by
  cases token with
  | name text =>
    have hnext := next_word offset hregular.1 hrest
    rw [String.ofList_toList, hregular.2] at hnext
    exact hnext
  | integer value =>
    -- a number that texts hold is not negative, so its literal has no sign
    obtain ⟨n, hn⟩ : ∃ n : Nat, Int64.toInt value = n := Int.eq_ofNat_of_zero_le hregular
    have hliteral : (Token.integer value).literal.toList = Nat.toDigits 10 n := by
      rw [Token.literal, Integer.text, hn]
      exact Nat.toList_repr
    rw [hliteral]
    exact next_number offset (Integer.ofInt?_eq_some_iff.2 hn) hrest
  | string value =>
    have hnext := next_quoted offset rest hplain
    rw [String.ofList_toList] at hnext
    rw [Token.literal, Text.quote, String.toList_ofList]
    exact hnext
  | comment => exact absurd hregular id
  | keyword word =>
    have hnext := next_word offset (isWord_text word) hrest
    rw [String.ofList_toList, ofText?_text] at hnext
    exact hnext
  | symbol sign =>
    rw [Token.literal, Symbol.text, String.toList_ofList]
    exact next_symbol sign offset rest hrest
  | eof => exact absurd hregular id

/-! ### The tokens that are read -/

theorem isWord_takeWhile {c : Char} {cs : List Char} (hc : beginsWord c = true) :
    IsWord ((c :: cs).takeWhile inWord) := by
  refine ⟨⟨c, cs.takeWhile inWord, ?_, hc⟩, fun d hd => List.all_eq_true.1 List.all_takeWhile d hd⟩
  rw [List.takeWhile_cons, if_pos (inWord_iff.2 (.inl hc))]

theorem regular_of_stringFrom (start : Cursor) : ∀ (cs : List Char) (offset : Nat)
    (value : List Char) (x : Lexeme) (c' : Cursor),
    start.stringFrom offset value cs = (.ok x, c') → x.token.Regular := by
  intro cs offset value
  fun_induction stringFrom start offset value cs with
  | case1 offset value =>
    intro x c' h
    cases h
  | case2 offset value rest =>
    intro x c' h
    cases h
    trivial
  | case3 offset value =>
    intro x c' h
    cases h
  | case4 offset value letter rest after char hchar ih => exact ih
  | case5 offset value letter rest after hchar =>
    intro x c' h
    cases h
  | case6 offset value char rest h₁ h₂ h₃ ih => exact ih

/-- Whatever is read is a token that texts hold, a comment or the end. -/
theorem regular_of_read {c c' : Cursor} {x : Lexeme} (h : c.read = (.ok x, c')) :
    x.token = .eof ∨ x.token = .comment ∨ x.token.Regular := by
  unfold read at h
  split at h
  · cases h
    exact .inl rfl
  · cases h
    exact .inr (.inl rfl)
  · exact .inr (.inr (regular_of_stringFrom _ _ _ _ _ _ h))
  · next char rest _ _ hrest =>
    right; right
    split at h
    · next hword =>
      rw [word, hrest] at h
      cases h
      dsimp only
      split
      · trivial
      · next hkeyword =>
        -- a word is a keyword, or a name since it is none
        refine ⟨?_, hkeyword⟩
        rw [String.toList_ofList]
        exact isWord_takeWhile hword
    · split at h
      · unfold number at h
        dsimp only at h
        split at h
        · next value hvalue =>
          cases h
          show 0 ≤ Int64.toInt value
          rw [Integer.ofInt?_eq_some_iff.1 hvalue]
          exact Int.natCast_nonneg _
        · cases h
      · split at h
        · cases h
          trivial
        · cases h

end Cursor

/-! ### The tokens of a text -/

/-- A text is read as some tokens, comments aside and without a lexical error, wherever it
stands. -/
def Spells (cs : List Char) (tokens : List Token) : Prop :=
  ∀ start offset, (LexemeStream.ofReadings start (Cursor.readings ⟨offset, cs⟩)).lexemes.map
      (·.token) = tokens ∧
    ∃ stop, (LexemeStream.ofReadings start (Cursor.readings ⟨offset, cs⟩)).ending = .eof stop

namespace Spells

variable {cs : List Char} {tokens : List Token}

theorem nil : Spells [] [] := by
  intro start offset
  exact ⟨rfl, offset, rfl⟩

theorem blank {b : Char} (h : Spells cs tokens) (hb : isBlank b = true) :
    Spells (b :: cs) tokens := by
  intro start offset
  rw [Cursor.readings_blank hb]
  exact h start _

theorem space (h : Spells cs tokens) : Spells (' ' :: cs) tokens :=
  h.blank (by decide)

/-- The literal of a token in front of a text adds the token. -/
theorem literal (h : Spells cs tokens) (token : Token) (hregular : token.Regular)
    (hplain : token.Plain) (hparts : token.Parts cs) :
    Spells (token.literal.toList ++ cs) (token :: tokens) := by
  intro start offset
  have hnext := Cursor.next_literal offset hregular hplain hparts
  have heof : token ≠ .eof := by
    rintro rfl
    exact hregular
  have hcomment : token ≠ .comment := by
    rintro rfl
    exact hregular
  rw [Cursor.readings_cons hnext (by rintro ⟨span, hspan⟩; cases hspan; exact heof rfl),
    LexemeStream.ofReadings_cons start heof hcomment]
  have hrest := h (.ofNat (offset + byteLength token.literal.toList))
    (offset + byteLength token.literal.toList)
  exact ⟨congrArg (token :: ·) hrest.1, hrest.2⟩

end Spells

/-- The lexemes of a text are tokens that texts hold. -/
theorem LexemeStream.regular_of_mem_ofText {text : String} {x : Lexeme}
    (h : x ∈ (LexemeStream.ofText text).lexemes) : x.token.Regular := by
  obtain ⟨hmem, heof, hcomment⟩ := LexemeStream.mem_of_mem_ofReadings h
  obtain ⟨c, c', hnext⟩ := Cursor.exists_next_of_mem_readings hmem
  exact ((Cursor.regular_of_read hnext).resolve_left heof).resolve_left hcomment

end Script
