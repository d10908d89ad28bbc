import Script.Proofs.Lexeme.Feeding

/-!
# What a slice of a text denotes

A reading passes a gap and is then about the slice of the text after it. What it says of the slice
is told here without reading anything: a slice denotes a token if it is spelled like one, and if the
text does not go on so that a longer slice would be. Blanks are gaps. Only where a string holds an
escape that there is none of, the slice is that escape, and the gap ends inside the string.

Every text begins with a gap and a slice that denotes something (`exists_reads`), and a cursor reads
whatever is denoted (`Cursor.next_of_reads`); hence it reads exactly this.

* `Denotes`: what a slice denotes in front of the rest of a text;
* `Reads`: what is read of a text, with the gap before it;
* `Cursor.next_eq_iff`: a cursor reads what is denoted, and nothing else.
-/

namespace Script

open Text (byteLength isBlank)
open Cursor (beginsWord inWord unescape?)

/-! ### Slices -/

/-- What the inside of a string says. An escape says the character that it stands for; a quote
and a backslash stand there in escapes only. -/
inductive Unescapes : List Char → List Char → Prop where
  | nil : Unescapes [] []
  | char {c : Char} {body value : List Char} (hquote : c ≠ '"') (hbackslash : c ≠ '\\')
      (h : Unescapes body value) : Unescapes (c :: body) (c :: value)
  | escape {letter c : Char} {body value : List Char} (hletter : unescape? letter = some c)
      (h : Unescapes body value) : Unescapes ('\\' :: letter :: body) (c :: value)

/-- **What a slice denotes** in front of the rest of a text. Words, numbers and comments go on up to
where the rest begins with a character of another class; no symbol in the text is longer. -/
inductive Denotes : List Char → List Char → Except LexicalCause Token → Prop where
  | keyword (word : Keyword) {rest : List Char} (hrest : ∀ c ∈ rest.head?, inWord c = false) :
      Denotes word.text.toList rest (.ok (.keyword word))
  | name {slice rest : List Char} (hslice : IsWord slice)
      (hkeyword : ∀ word : Keyword, word.text.toList ≠ slice)
      (hrest : ∀ c ∈ rest.head?, inWord c = false) :
      Denotes slice rest (.ok (.name (String.ofList slice)))
  | integer {slice rest : List Char} {value : Integer} (hne : slice ≠ [])
      (hslice : ∀ c ∈ slice, c.isDigit = true) (hrest : ∀ c ∈ rest.head?, c.isDigit = false)
      (hvalue : Int64.toInt value = Nat.ofDigitChars 10 slice 0) :
      Denotes slice rest (.ok (.integer value))
  | integerOverflow {slice rest : List Char} (hne : slice ≠ [])
      (hslice : ∀ c ∈ slice, c.isDigit = true) (hrest : ∀ c ∈ rest.head?, c.isDigit = false)
      (hvalue : Integer.greatest < Nat.ofDigitChars 10 slice 0) :
      Denotes slice rest (.error .integerOverflow)
  | string {body value rest : List Char} (hbody : Unescapes body value) :
      Denotes ('"' :: (body ++ ['"'])) rest (.ok (.string (String.ofList value)))
  /-- The text ends in a string, or right after a backslash in one. -/
  | missingStringEnd {body value tail : List Char} (hbody : Unescapes body value)
      (htail : tail = [] ∨ tail = ['\\']) :
      Denotes ('"' :: (body ++ tail)) [] (.error .missingStringEnd)
  | comment {line rest : List Char} (hline : '\n' ∉ line) (hrest : ∀ c ∈ rest.head?, c = '\n') :
      Denotes ('/' :: '/' :: line) rest (.ok .comment)
  | symbol (sign : Symbol) {rest : List Char} (hcomment : ¬ ['/', '/'] <+: sign.chars ++ rest)
      (hlongest : ∀ other : Symbol, other.chars <+: sign.chars ++ rest →
        other.chars.length ≤ sign.chars.length) :
      Denotes sign.chars rest (.ok (.symbol sign))
  | unrecognized {c : Char} {rest : List Char} (hblank : isBlank c = false)
      (hword : inWord c = false) (hquote : c ≠ '"')
      (hsymbol : ∀ sign : Symbol, ¬ sign.chars <+: c :: rest) :
      Denotes [c] rest (.error (.unrecognized c))
  | eof : Denotes [] [] (.ok .eof)

/-- **What is read of a text**: the gap that is passed, the slice that the reading is about, the
rest of the text, and what the slice denotes. -/
inductive Reads : List Char → List Char → List Char → Except LexicalCause Token → Prop where
  | denotes {gap slice rest : List Char} {what : Except LexicalCause Token}
      (hgap : ∀ c ∈ gap, isBlank c = true) (h : Denotes slice rest what) : Reads gap slice rest what
  /-- The gap holds the beginning of the string, and the slice nothing but the escape. -/
  | unknownEscape {blanks body value rest : List Char} {letter : Char}
      (hblanks : ∀ c ∈ blanks, isBlank c = true) (hbody : Unescapes body value)
      (hletter : unescape? letter = none) :
      Reads (blanks ++ '"' :: body) ['\\', letter] rest (.error (.unknownEscape letter))

/-- The reading of a slice that stands at a span. -/
def Reading.ofSlice (span : Span) : Except LexicalCause Token → Reading
  | .ok token => .ok ⟨token, span⟩
  | .error cause => .error ⟨cause, span⟩

/-! ### Every text begins with a slice that denotes something -/

/-- A longest run of characters of a class, with what comes after it. -/
theorem exists_run (p : Char → Bool) (cs : List Char) : ∃ run rest, cs = run ++ rest ∧
    (∀ c ∈ run, p c = true) ∧ ∀ c ∈ rest.head?, p c = false :=
  ⟨cs.takeWhile p, cs.dropWhile p, List.takeWhile_append_dropWhile.symm,
    fun c hc => List.all_eq_true.1 List.all_takeWhile c hc, Cursor.head?_dropWhile p cs⟩

/-- The inside of a string goes on to the end of the text, to the quote that closes the string,
or to a backslash that no escape begins with. -/
theorem exists_unescapes : ∀ cs : List Char, ∃ body value tail, cs = body ++ tail ∧
    Unescapes body value ∧ (tail = [] ∨ tail = ['\\'] ∨ (∃ rest, tail = '"' :: rest) ∨
      ∃ letter rest, tail = '\\' :: letter :: rest ∧ unescape? letter = none)
  | [] => ⟨[], [], [], rfl, .nil, .inl rfl⟩
  | c :: cs => by
    by_cases hquote : c = '"'
    · subst hquote
      exact ⟨[], [], '"' :: cs, rfl, .nil, .inr (.inr (.inl ⟨cs, rfl⟩))⟩
    by_cases hbackslash : c = '\\'
    · subst hbackslash
      cases cs with
      | nil => exact ⟨[], [], ['\\'], rfl, .nil, .inr (.inl rfl)⟩
      | cons letter cs =>
        cases hletter : unescape? letter with
        | none =>
          exact ⟨[], [], '\\' :: letter :: cs, rfl, .nil,
            -- a backslash that no escape begins with ends the inside
            .inr (.inr (.inr ⟨letter, cs, rfl, hletter⟩))⟩
        | some c =>
          obtain ⟨body, value, tail, rfl, hbody, htail⟩ := exists_unescapes cs
          exact ⟨'\\' :: letter :: body, c :: value, tail, rfl, .escape hletter hbody, htail⟩
    · obtain ⟨body, value, tail, rfl, hbody, htail⟩ := exists_unescapes cs
      exact ⟨c :: body, c :: value, tail, rfl, .char hquote hbackslash hbody, htail⟩
termination_by cs => cs.length

theorem length_chars_le (sign : Symbol) : 1 ≤ sign.chars.length ∧ sign.chars.length ≤ 2 := by
  cases sign <;> decide

/-- No symbol at the front of a text is longer than the longest one. -/
theorem length_chars_le_of_longest? {cs rest : List Char} {sign other : Symbol}
    (h : Symbol.longest? cs = some (sign, rest)) (hother : other.chars <+: cs) :
    other.chars.length ≤ sign.chars.length := by
  obtain ⟨more, rfl⟩ := hother
  have hsign := (length_chars_le sign).1
  -- only two symbols have two characters, and they are found wherever they stand
  cases other with
  | equal => cases h; exact Nat.le_refl _
  | notEqual => cases h; exact Nat.le_refl _
  | _ => exact hsign

theorem exists_denotes_word {c : Char} (hc : beginsWord c = true) (cs : List Char) :
    ∃ slice rest what, c :: cs = slice ++ rest ∧ Denotes slice rest what := by
  have hslice : IsWord ((c :: cs).takeWhile inWord) := Cursor.isWord_takeWhile hc
  have hrest := Cursor.head?_dropWhile inWord (c :: cs)
  have hsplit : c :: cs = (c :: cs).takeWhile inWord ++ (c :: cs).dropWhile inWord :=
    List.takeWhile_append_dropWhile.symm
  by_cases hkeyword : ∃ word : Keyword, word.text.toList = (c :: cs).takeWhile inWord
  · obtain ⟨word, hword⟩ := hkeyword
    rw [← hword] at hsplit
    exact ⟨_, _, _, hsplit, .keyword word hrest⟩
  · exact ⟨_, _, _, hsplit, .name hslice (fun word hword => hkeyword ⟨word, hword⟩) hrest⟩

theorem exists_denotes_number {c : Char} (hc : c.isDigit = true) (cs : List Char) :
    ∃ slice rest what, c :: cs = slice ++ rest ∧ Denotes slice rest what := by
  obtain ⟨slice, rest, hsplit, hslice, hrest⟩ := exists_run Char.isDigit (c :: cs)
  have hne : slice ≠ [] := by
    rintro rfl
    have hfalse := hrest c (by rw [← List.nil_append rest, ← hsplit]; rfl)
    rw [hc] at hfalse
    cases hfalse
  cases hvalue : Integer.ofInt? (Nat.ofDigitChars 10 slice 0) with
  | some value =>
    exact ⟨_, _, _, hsplit, .integer hne hslice hrest (Integer.ofInt?_eq_some_iff.1 hvalue)⟩
  | none =>
    refine ⟨_, _, _, hsplit, .integerOverflow hne hslice hrest ?_⟩
    rw [Integer.ofInt?] at hvalue
    unfold Integer.greatest at hvalue ⊢
    split at hvalue
    · cases hvalue
    · omega

theorem exists_denotes_comment (cs : List Char) :
    ∃ slice rest what, '/' :: '/' :: cs = slice ++ rest ∧ Denotes slice rest what := by
  obtain ⟨line, rest, rfl, hline, hrest⟩ := exists_run (· != '\n') cs
  refine ⟨'/' :: '/' :: line, rest, .ok .comment, rfl, .comment (fun hmem => ?_) fun c hc => ?_⟩
  · have hne := hline '\n' hmem
    simp at hne
  · have heq := hrest c hc
    simpa using heq

/-- A character that begins nothing else is a symbol, begins one, or is not recognized. -/
theorem exists_denotes_symbol {c : Char} {cs : List Char} (hblank : isBlank c = false)
    (hword : inWord c = false) (hquote : c ≠ '"') (hcomment : ¬ ['/', '/'] <+: c :: cs) :
    ∃ slice rest what, c :: cs = slice ++ rest ∧ Denotes slice rest what := by
  cases hlongest : Symbol.longest? (c :: cs) with
  | some found =>
    obtain ⟨sign, rest⟩ := found
    have happend := Symbol.chars_append_of_longest? hlongest
    rw [← happend] at hlongest hcomment ⊢
    exact ⟨sign.chars, rest, _, rfl,
      .symbol sign hcomment fun other hother => length_chars_le_of_longest? hlongest hother⟩
  | none =>
    refine ⟨[c], cs, _, rfl, .unrecognized hblank hword hquote ?_⟩
    rintro sign ⟨rest, happend⟩
    -- a symbol that stands there would have been found
    refine Cursor.longest?_ne_none sign cs c ?_ hlongest
    cases hchars : sign.chars with
    | nil => cases sign <;> cases hchars
    | cons x more =>
      rw [hchars, List.cons_append] at happend
      rw [(List.cons.inj happend).1]
      rfl

/-- **Every text begins with a gap and a slice** that denotes something. -/
theorem exists_reads (cs : List Char) :
    ∃ gap slice rest what, cs = gap ++ slice ++ rest ∧ Reads gap slice rest what := by
  obtain ⟨gap, after, rfl, hgap, hafter⟩ := exists_run isBlank cs
  -- after the blanks it is enough to find a slice
  suffices h : (∃ slice rest what, after = slice ++ rest ∧ Denotes slice rest what) ∨
      ∃ body value letter rest, after = '"' :: (body ++ '\\' :: letter :: rest) ∧
        Unescapes body value ∧ unescape? letter = none by
    rcases h with ⟨slice, rest, what, rfl, h⟩ | ⟨body, value, letter, rest, rfl, hbody, hletter⟩
    · exact ⟨gap, slice, rest, what, (List.append_assoc ..).symm, .denotes hgap h⟩
    · refine ⟨gap ++ '"' :: body, ['\\', letter], rest, _, ?_, .unknownEscape hgap hbody hletter⟩
      simp
  cases after with
  | nil => exact .inl ⟨[], [], _, rfl, .eof⟩
  | cons c cs =>
    have hblank : isBlank c = false := hafter c rfl
    by_cases hquote : c = '"'
    · subst hquote
      obtain ⟨body, value, tail, rfl, hbody, htail⟩ := exists_unescapes cs
      rcases htail with rfl | rfl | ⟨rest, rfl⟩ | ⟨letter, rest, rfl, hletter⟩
      · exact .inl ⟨'"' :: (body ++ []), [], _, by simp, .missingStringEnd hbody (.inl rfl)⟩
      · exact .inl ⟨'"' :: (body ++ ['\\']), [], _, by simp, .missingStringEnd hbody (.inr rfl)⟩
      · exact .inl ⟨'"' :: (body ++ ['"']), rest, _, by simp, .string hbody⟩
      · exact .inr ⟨body, value, letter, rest, rfl, hbody, hletter⟩
    left
    by_cases hcomment : ['/', '/'] <+: c :: cs
    · obtain ⟨rest, happend⟩ := hcomment
      rw [← happend]
      exact exists_denotes_comment rest
    cases hword : inWord c with
    | false => exact exists_denotes_symbol hblank hword hquote hcomment
    | true =>
      rcases inWord_iff.1 hword with hbegins | hdigit
      · exact exists_denotes_word hbegins cs
      · exact exists_denotes_number hdigit cs

/-! ### What is denoted is read -/

namespace Cursor

/-- Blanks are passed. -/
theorem next_blanks : ∀ {gap : List Char}, (∀ c ∈ gap, isBlank c = true) →
    ∀ (offset : Nat) (cs : List Char),
      next ⟨offset, gap ++ cs⟩ = next ⟨offset + byteLength gap, cs⟩
  | [], _, offset, cs => rfl
  | b :: gap, hgap, offset, cs => by
    rw [List.cons_append, next_blank (hgap b List.mem_cons_self),
      next_blanks fun c hc => hgap c (List.mem_cons_of_mem b hc), Text.byteLength_cons,
      Nat.add_assoc]

/-- The inside of a string is read as what it says, whatever comes after it. -/
theorem stringFrom_of_unescapes (start : Cursor) {body value : List Char}
    (h : Unescapes body value) (rest : List Char) : ∀ (offset : Nat) (read : List Char),
    stringFrom start offset read (body ++ rest) =
      stringFrom start (offset + byteLength body) (value.reverse ++ read) rest := by
  induction h with
  | nil => exact fun _ _ => rfl
  | @char c body value hquote hbackslash _ ih =>
    intro offset read
    rw [List.cons_append, stringFrom]
    · rw [ih, Text.byteLength_cons, List.reverse_cons, List.append_assoc, Nat.add_assoc]
      rfl
    · exact hquote
    · exact fun h _ => hbackslash h
    · exact fun _ _ h _ => hbackslash h
  | @escape letter c body value hletter _ ih =>
    intro offset read
    rw [List.cons_append, List.cons_append, stringFrom, hletter]
    dsimp only
    rw [ih, Text.byteLength_cons, Text.byteLength_cons, List.reverse_cons, List.append_assoc,
      ← Nat.add_assoc, ← Nat.add_assoc]
    rfl

theorem parts_of_longest {sign : Symbol} {rest : List Char}
    (hcomment : ¬ ['/', '/'] <+: sign.chars ++ rest)
    (hlongest : ∀ other : Symbol, other.chars <+: sign.chars ++ rest →
      other.chars.length ≤ sign.chars.length) : (Token.symbol sign).Parts rest := by
  intro c hc
  obtain ⟨rest, rfl⟩ := List.head?_eq_some_iff.1 hc
  -- a character that joined the symbol would make a longer one, or a comment
  cases sign with
  | assign =>
    refine beq_eq_false_iff_ne.2 fun h => ?_
    subst h
    exact absurd (hlongest .equal ⟨rest, rfl⟩) (by decide)
  | bang =>
    refine beq_eq_false_iff_ne.2 fun h => ?_
    subst h
    exact absurd (hlongest .notEqual ⟨rest, rfl⟩) (by decide)
  | slash =>
    refine beq_eq_false_iff_ne.2 fun h => ?_
    subst h
    exact hcomment ⟨rest, rfl⟩
  | _ => rfl

theorem next_of_denotes {slice rest : List Char} {what : Except LexicalCause Token}
    (h : Denotes slice rest what) (offset : Nat) :
    next ⟨offset, slice ++ rest⟩ =
      (.ofSlice (.between offset (offset + byteLength slice)) what,
        ⟨offset + byteLength slice, rest⟩) := by
  cases h with
  | keyword word hrest =>
    rw [next_word offset (isWord_text word) hrest, String.ofList_toList, ofText?_text]
    rfl
  | name hslice hkeyword hrest =>
    -- no keyword has this text
    have hnone : Keyword.ofText? (String.ofList slice) = none := by
      refine List.find?_eq_none.2 fun word _ heq => hkeyword word ?_
      rw [eq_of_beq heq, String.toList_ofList]
    rw [next_word offset hslice hrest, hnone]
    rfl
  | integer hne hslice hrest hvalue =>
    rw [next_digits offset hne hslice hrest, Integer.ofInt?_eq_some_iff.2 hvalue]
    rfl
  | integerOverflow hne hslice hrest hvalue =>
    have hnone : Integer.ofInt? (Nat.ofDigitChars 10 slice 0) = none :=
      if_neg fun hrange => absurd hvalue (Int.not_lt.2 hrange.2)
    rw [next_digits offset hne hslice hrest, hnone]
    rfl
  | @string body value _ hbody =>
    have hlength : byteLength ('"' :: (body ++ ['"'])) = 1 + byteLength body + 1 := by
      -- both quotes take one byte
      rw [Text.byteLength_cons, Text.byteLength_append, Nat.add_assoc]
      rfl
    rw [List.cons_append, List.append_assoc, next_eq_read (by decide), hlength]
    show stringFrom _ (offset + 1) [] _ = _
    rw [stringFrom_of_unescapes _ hbody, ← Nat.add_assoc, ← Nat.add_assoc]
    show lexeme _ (.string (String.ofList (value.reverse ++ []).reverse)) _ = _
    rw [List.append_nil, List.reverse_reverse]
    rfl
  | @missingStringEnd body value tail hbody htail =>
    rw [List.append_nil, next_eq_read (by decide), Text.byteLength_cons, Text.byteLength_append,
      ← Nat.add_assoc, ← Nat.add_assoc]
    show stringFrom _ (offset + 1) [] _ = _
    rw [stringFrom_of_unescapes _ hbody]
    rcases htail with rfl | rfl <;> rfl
  | @comment line _ hline hrest =>
    -- the line goes on up to the new line, and not further
    have hline' : ∀ c ∈ '/' :: '/' :: line, (c != '\n') = true := by
      intro c hc
      refine bne_iff_ne.2 fun heq => ?_
      subst heq
      simp [hline] at hc
    have hrest' : ∀ c ∈ rest.head?, (c != '\n') = false := by
      intro c hc
      rw [hrest c hc]
      rfl
    obtain ⟨hdrop, -⟩ := dropWhile_append offset hline' hrest'
    show lexeme _ .comment (dropWhile ⟨offset, ('/' :: '/' :: line) ++ rest⟩ _) = _
    rw [hdrop]
    rfl
  | symbol sign hcomment hlongest =>
    exact next_symbol sign offset rest (parts_of_longest hcomment hlongest)
  | @unrecognized c _ hblank hword hquote hsymbol =>
    -- a symbol that began here would have been in the text
    have hnone : Symbol.longest? (c :: rest) = none := by
      cases hlongest : Symbol.longest? (c :: rest) with
      | none => rfl
      | some found =>
        exact absurd ⟨_, Symbol.chars_append_of_longest? hlongest⟩ (hsymbol found.1)
    have hcomment : ∀ cs, c :: rest ≠ '/' :: '/' :: cs := fun cs heq =>
      hsymbol .slash ⟨'/' :: cs, heq.symm⟩
    have hbegins : ¬ (beginsWord c = true ∨ c.isDigit = true) := by
      rw [← inWord_iff, hword]
      exact Bool.false_ne_true
    rw [List.singleton_append, next_eq_read hblank, read_of_ne hquote offset hcomment,
      if_neg fun h => hbegins (.inl h), if_neg fun h => hbegins (.inr h), hnone]
    rfl
  | eof => rfl

/-- **What is denoted is read.** -/
theorem next_of_reads {gap slice rest : List Char} {what : Except LexicalCause Token}
    (h : Reads gap slice rest what) (offset : Nat) :
    next ⟨offset, gap ++ slice ++ rest⟩ =
      (.ofSlice (.between (offset + byteLength gap)
        (offset + byteLength gap + byteLength slice)) what,
        ⟨offset + byteLength gap + byteLength slice, rest⟩) := by
  cases h with
  | denotes hgap h => rw [List.append_assoc, next_blanks hgap, next_of_denotes h]
  | @unknownEscape blanks body value _ letter hblanks hbody hletter =>
    -- the gap takes in what comes before the escape: the error is told of the escape alone
    have hsplit : blanks ++ '"' :: body ++ ['\\', letter] ++ rest =
        blanks ++ '"' :: (body ++ '\\' :: letter :: rest) := by simp
    have hlength : offset + byteLength (blanks ++ '"' :: body) =
        offset + byteLength blanks + 1 + byteLength body := by
      rw [Text.byteLength_append, Text.byteLength_cons, ← Nat.add_assoc, ← Nat.add_assoc]
      rfl
    have hescape : byteLength ['\\', letter] = 1 + letter.utf8Size := by
      rw [Text.byteLength_cons, Text.byteLength_cons]
      rfl
    rw [hsplit, next_blanks hblanks, next_eq_read (by decide), hlength, hescape, ← Nat.add_assoc]
    show stringFrom _ (offset + byteLength blanks + 1) [] _ = _
    rw [stringFrom_of_unescapes _ hbody, stringFrom, hletter]
    rfl

/-- **A cursor reads what is denoted**, and nothing else: where it stands after a reading, what the
reading says and at which span, is told by the one gap and slice that the text begins with. -/
theorem next_eq_iff {c c' : Cursor} {reading : Reading} : c.next = (reading, c') ↔
    ∃ gap slice what, c.rest = gap ++ slice ++ c'.rest ∧
      c'.offset = c.offset + byteLength gap + byteLength slice ∧
      reading = .ofSlice (.between (c.offset + byteLength gap) c'.offset) what ∧
      Reads gap slice c'.rest what := by
  obtain ⟨offset, cs⟩ := c
  constructor
  · intro hnext
    obtain ⟨gap, slice, rest, what, rfl, hreads⟩ := exists_reads cs
    rw [next_of_reads hreads] at hnext
    cases hnext
    exact ⟨gap, slice, what, rfl, rfl, rfl, hreads⟩
  · obtain ⟨offset', rest⟩ := c'
    rintro ⟨gap, slice, what, hrest, hoffset, rfl, hreads⟩
    dsimp only at hrest hoffset hreads ⊢
    subst hrest hoffset
    exact next_of_reads hreads offset

end Cursor

end Script
