import Mathlib.Data.List.Basic
import Script.Proofs.Lexeme.Spelling
import Script.Proofs.Span

/-!
# Literals with spaces between them

The literals of any tokens, written one after another with a single space between them, are read as
those tokens again. A space ends every literal: no token goes on with it, so signs like `=` and `=`
or `/` and `/` stay two, and inside the quotes of a string it is a character like any other. Hence
each token is found where its literal has been written.

* `Token.spaced`: the text of some tokens;
* `Cursor.readings_spaced`: what is read of it, wherever it stands;
* `Token.spaced_reads_back`: the tokens come back in order, each with the bytes of its literal.
-/

namespace Script

open Text (byteLength)

namespace Token

/-! ### Texts of tokens -/

/-- The text of some tokens: their literals with a single space between any two. -/
def spaced (tokens : List Token) : String :=
  " ".intercalate (tokens.map literal)

/-- What stands in front of a literal in the text of some tokens: the literals before it, each
with a space after it. -/
def lead (front : List Token) : List Char :=
  front.flatMap fun token => token.literal.toList ++ [' ']

/-- The lexemes of some tokens whose text stands at an offset. -/
def lexemesFrom (offset : Nat) : List Token → List Lexeme
  | [] => []
  | token :: rest =>
    let stop := offset + byteLength token.literal.toList
    ⟨token, .between offset stop⟩ :: lexemesFrom (stop + 1) rest

theorem toList_spaced (tokens : List Token) :
    (spaced tokens).toList = [' '].intercalate (tokens.map (·.literal.toList)) := by
  have hspace : " ".toList = [' '] := rfl
  rw [spaced, String.toList_intercalate, hspace, List.map_map]
  rfl

theorem toList_spaced_singleton (token : Token) :
    (spaced [token]).toList = token.literal.toList := by
  simp [toList_spaced]

theorem toList_spaced_cons_cons (token next : Token) (rest : List Token) :
    (spaced (token :: next :: rest)).toList =
      token.literal.toList ++ ' ' :: (spaced (next :: rest)).toList := by
  simp [toList_spaced, List.intercalate_cons_cons]

/-- A space ends every literal. -/
theorem parts_space (token : Token) (rest : List Char) : token.Parts (' ' :: rest) := by
  intro c hc
  obtain rfl := Option.some.inj hc
  cases token with
  | symbol sign => cases sign <;> rfl
  | _ => rfl

theorem parts_nil (token : Token) : token.Parts [] := by
  simp [Parts]

/-! ### Places of literals -/

theorem map_token_lexemesFrom (tokens : List Token) (offset : Nat) :
    (lexemesFrom offset tokens).map (·.token) = tokens := by
  induction tokens generalizing offset with
  | nil => rfl
  | cons token rest ih => rw [lexemesFrom, List.map_cons, ih]

theorem lead_cons (token : Token) (front : List Token) :
    lead (token :: front) = token.literal.toList ++ ' ' :: lead front := by
  simp [lead]

/-- A token's literal stands where its lexeme says, behind the literals before it. -/
theorem getElem?_lexemesFrom (front : List Token) (token : Token) (back : List Token)
    (offset : Nat) :
    (lexemesFrom offset (front ++ token :: back))[front.length]? =
      some ⟨token, .between (offset + byteLength (lead front))
        (offset + byteLength (lead front ++ token.literal.toList))⟩ := by
  induction front generalizing offset with
  | nil => rfl
  | cons first front ih =>
    have hspace : ' '.utf8Size = 1 := rfl
    have hlead : byteLength (lead (first :: front)) =
        byteLength first.literal.toList + 1 + byteLength (lead front) := by
      rw [lead_cons, Text.byteLength_append, Text.byteLength_cons, hspace, Nat.add_assoc]
    rw [List.cons_append, lexemesFrom, List.length_cons, List.getElem?_cons_succ, ih]
    simp only [Text.byteLength_append, hlead, Nat.add_assoc]

/-- The text of some tokens around the literal of one of them. -/
theorem exists_spaced_eq (front : List Token) (token : Token) (back : List Token) :
    ∃ rest, (spaced (front ++ token :: back)).toList =
      lead front ++ token.literal.toList ++ rest := by
  induction front with
  | nil =>
    cases back with
    | nil => exact ⟨[], by simp [toList_spaced_singleton, lead]⟩
    | cons next back => exact ⟨_, toList_spaced_cons_cons token next back⟩
  | cons first front ih =>
    obtain ⟨rest, hrest⟩ := ih
    refine ⟨rest, ?_⟩
    -- there is one more token behind the first, so a space comes after it
    obtain ⟨next, more, hmore⟩ : ∃ next more, front ++ token :: back = next :: more :=
      List.exists_cons_of_ne_nil (by simp)
    rw [List.cons_append, lead_cons, hmore, toList_spaced_cons_cons, ← hmore, hrest]
    simp

end Token

/-! ### Reading -/

open Token (spaced lexemesFrom)

namespace Cursor

/-- At the end of a text there is its end to read. -/
theorem readings_nil (offset : Nat) :
    readings ⟨offset, []⟩ = [.ok ⟨.eof, .point (.ofNat offset)⟩] :=
  rfl

/-- A literal is read as its token, and what comes after it is read from there. -/
theorem readings_literal {token : Token} {rest : List Char} (offset : Nat)
    (hregular : token.Regular) (hplain : token.Plain) (hparts : token.Parts rest) :
    readings ⟨offset, token.literal.toList ++ rest⟩ =
      .ok ⟨token, .between offset (offset + byteLength token.literal.toList)⟩ ::
        readings ⟨offset + byteLength token.literal.toList, rest⟩ := by
  have hnext := next_literal offset hregular hplain hparts
  refine readings_cons hnext ?_
  rintro ⟨span, hspan⟩
  cases hspan
  exact hregular

/-- **The text of some tokens is read as these tokens**, wherever it stands, and then it ends. -/
theorem readings_spaced : ∀ (tokens : List Token) (offset : Nat),
    (∀ token ∈ tokens, token.Regular ∧ token.Plain) →
    readings ⟨offset, (spaced tokens).toList⟩ = (lexemesFrom offset tokens).map .ok ++
      [.ok ⟨.eof, .point (.ofNat (offset + byteLength (spaced tokens).toList))⟩]
  | [], offset, _ => readings_nil offset
  | [token], offset, h => by
    obtain ⟨hregular, hplain⟩ := h token List.mem_cons_self
    have hread := readings_literal offset hregular hplain token.parts_nil
    rw [List.append_nil, readings_nil] at hread
    rw [Token.toList_spaced_singleton, hread]
    rfl
  | token :: next :: rest, offset, h => by
    obtain ⟨hregular, hplain⟩ := h token List.mem_cons_self
    have hspace : ' '.utf8Size = 1 := rfl
    have hread := readings_literal offset hregular hplain
      (token.parts_space (spaced (next :: rest)).toList)
    -- the text of the others is read behind the token and one space
    have hrest := readings_spaced (next :: rest)
      (offset + byteLength token.literal.toList + 1) fun t ht => h t (List.mem_cons_of_mem _ ht)
    have hlength : offset + byteLength token.literal.toList + 1 +
        byteLength (spaced (next :: rest)).toList =
        offset + byteLength (spaced (token :: next :: rest)).toList := by
      rw [Token.toList_spaced_cons_cons, Text.byteLength_append, Text.byteLength_cons, hspace]
      omega
    rw [Token.toList_spaced_cons_cons, hread, readings_blank (by decide), hspace, hrest, hlength,
      ← Token.toList_spaced_cons_cons]
    rfl

end Cursor

namespace Token

/-- **Tokens read back from their text.** The text of any tokens whose literals can be read is read
as exactly these tokens, and then it ends. The literal of each token stands behind the literals
before it, each with one space after it; if it ends within 4 GiB, the span of its lexeme is the
range of its bytes. -/
theorem spaced_reads_back (tokens : List Token)
    (h : ∀ token ∈ tokens, token.Regular ∧ token.Plain) :
    ∃ lexemes : List Lexeme,
      (Cursor.ofChars (spaced tokens).toList).readings = lexemes.map .ok ++
        [.ok ⟨.eof, .point (.ofNat (byteLength (spaced tokens).toList))⟩] ∧
      lexemes.map (·.token) = tokens ∧
      ∀ front token back, tokens = front ++ token :: back →
        ∃ rest span, (spaced tokens).toList = lead front ++ token.literal.toList ++ rest ∧
          lexemes[front.length]? = some ⟨token, span⟩ ∧
          (byteLength (lead front ++ token.literal.toList) < 2 ^ 32 →
            span.Ranges (byteLength (lead front))
              (byteLength (lead front ++ token.literal.toList))) := by
  have hread := Cursor.readings_spaced tokens 0 h
  rw [Nat.zero_add] at hread
  refine ⟨lexemesFrom 0 tokens, hread, map_token_lexemesFrom tokens 0, ?_⟩
  rintro front token back rfl
  obtain ⟨rest, hrest⟩ := exists_spaced_eq front token back
  have hplace := getElem?_lexemesFrom front token back 0
  rw [Nat.zero_add, Nat.zero_add] at hplace
  refine ⟨rest, _, hrest, hplace, fun hlt => Span.ranges_between ?_ hlt⟩
  rw [Text.byteLength_append]
  exact Nat.le_add_right _ _

/-- Signs that would be read as one without the space, and a string that holds a quote, a backslash,
two slashes, a new line and a letter of two bytes. -/
theorem spaced_reads_back_signs :
    let tokens : List Token := [.symbol .assign, .symbol .assign, .symbol .slash, .symbol .slash,
      .string "\"\\//\né", .integer 7, .name "x_1"]
    (∀ token ∈ tokens, token.Regular ∧ token.Plain) ∧
      (spaced tokens).toList = "= = / / \"\\\"\\\\//\\né\" 7 x_1".toList ∧
      ∃ lexemes : List Lexeme, (Cursor.ofChars (spaced tokens).toList).readings =
        lexemes.map .ok ++ [.ok ⟨.eof, .point 26⟩] ∧ lexemes.map (·.token) = tokens ∧
        ∃ span, lexemes[4]? = some ⟨.string "\"\\//\né", span⟩ ∧ span.Ranges 8 20 := by
  intro tokens
  have hslash : Text.Plain '/' := .inl (by decide)
  have hletter : Text.Plain 'é' := .inl (by decide)
  have hplain : ∀ c ∈ ['"', '\\', '/', '/', '\n', 'é'], Text.Plain c := by
    simp only [List.forall_mem_cons]
    exact ⟨.inr (.inl rfl), .inr (.inr (.inl rfl)), hslash, hslash,
      .inr (.inr (.inr (.inl rfl))), hletter, by simp⟩
  have hcharacters : ∀ c ∈ ['x', '_', '1'], Cursor.inWord c = true := by
    simp only [List.forall_mem_cons]
    exact ⟨rfl, rfl, rfl, by simp⟩
  have hword : IsWord "x_1".toList := ⟨⟨'x', ['_', '1'], rfl, rfl⟩, hcharacters⟩
  have hname : Keyword.ofText? "x_1" = none := by decide
  have hseven : (0 : Int) ≤ Int64.toInt 7 := by decide
  have htokens : ∀ token ∈ tokens, token.Regular ∧ token.Plain := by
    simp only [tokens, List.forall_mem_cons]
    exact ⟨⟨trivial, trivial⟩, ⟨trivial, trivial⟩, ⟨trivial, trivial⟩, ⟨trivial, trivial⟩,
      ⟨trivial, hplain⟩, ⟨hseven, trivial⟩, ⟨⟨hword, hname⟩, trivial⟩, by simp⟩
  have htext : (spaced tokens).toList = "= = / / \"\\\"\\\\//\\né\" 7 x_1".toList := by
    decide +kernel
  have hlength : byteLength (spaced tokens).toList = 26 := by
    rw [htext]
    decide +kernel
  -- the string is the fifth token, in front of a number and a name
  obtain ⟨lexemes, hread, hmap, hplace⟩ := spaced_reads_back tokens htokens
  rw [hlength] at hread
  obtain ⟨-, span, -, hstring, hrange⟩ :=
    hplace (tokens.take 4) (.string "\"\\//\né") (tokens.drop 5) rfl
  exact ⟨htokens, htext, lexemes, hread, hmap, span, hstring, hrange (by decide)⟩

/-! ### Texts of 4 GiB -/

/-- A name of many letters. -/
def longName (n : Nat) : Token :=
  .name (String.ofList (List.replicate n 'a'))

theorem ofText?_replicate {n : Nat} (hn : 9 ≤ n) :
    Keyword.ofText? (String.ofList (List.replicate n 'a')) = none := by
  refine List.find?_eq_none.2 fun word _ hword => ?_
  -- no keyword has as many letters
  have htext := congrArg (fun text => text.toList.length) (beq_iff_eq.1 hword)
  simp only [String.toList_ofList, List.length_replicate] at htext
  have hshort : word.text.toList.length < 9 := by
    cases word <;> decide
  omega

theorem regular_longName {n : Nat} (hn : 9 ≤ n) : (longName n).Regular := by
  refine ⟨?_, ofText?_replicate hn⟩
  rw [String.toList_ofList]
  refine ⟨⟨'a', List.replicate (n - 1) 'a', ?_, rfl⟩, ?_⟩
  · rw [← List.replicate_succ, Nat.sub_add_cancel (by omega)]
  · intro c hc
    obtain rfl := List.eq_of_mem_replicate hc
    rfl

/-- The end of a single name with one letter more than there are offsets is told as the end of its
first letter: its span is not the range of its bytes. -/
theorem not_spaced_ranges_long :
    (∀ token ∈ [longName (2 ^ 32 + 1)], token.Regular ∧ token.Plain) ∧
      (Cursor.ofChars (spaced [longName (2 ^ 32 + 1)]).toList).readings =
        [.ok ⟨longName (2 ^ 32 + 1), ⟨0, 1⟩⟩, .ok ⟨.eof, ⟨1, 1⟩⟩] ∧
      byteLength (longName (2 ^ 32 + 1)).literal.toList = 2 ^ 32 + 1 ∧
      ¬ (⟨0, 1⟩ : Span).Ranges 0 (2 ^ 32 + 1) := by
  have htokens : ∀ token ∈ [longName (2 ^ 32 + 1)], token.Regular ∧ token.Plain :=
    List.forall_mem_singleton.2 ⟨regular_longName (by omega), trivial⟩
  have hlength : byteLength (longName (2 ^ 32 + 1)).literal.toList = 2 ^ 32 + 1 := by
    rw [longName, literal, String.toList_ofList, Text.byteLength_replicate _ rfl]
  have hread := Cursor.readings_spaced _ 0 htokens
  rw [toList_spaced_singleton, Nat.zero_add, lexemesFrom, lexemesFrom, hlength] at hread
  refine ⟨htokens, ?_, hlength, fun h => ?_⟩
  · rw [toList_spaced_singleton]
    exact hread
  · cases h.stop_eq

end Token

end Script
