import Script.Parser
import Script.Proofs.Grammar
import Script.Proofs.Sequence

/-!
# What a parser takes

A parser that succeeds has taken some of the lexemes before it, and all that it has changed in its
state follows from them (`Consumes`). This is said here of the parsers that take single lexemes:

* `consumes_of_expect`, `consumes_of_expectName`: a certain token, or a name;
* `consumes_of_skipSemicolons`: all semicolons that come next, after which comes none.
-/

namespace Script

open Grammar (stopAfter)

@[simp] theorem Grammar.stopAfter_append (stop : UInt32) (l l' : List Lexeme) :
    stopAfter stop (l ++ l') = stopAfter (stopAfter stop l) l' := by
  induction l generalizing stop with
  | nil => rfl
  | cons x l ih => exact ih x.span.stop

/-- A certain token comes next, where the end of the text counts as one. -/
def ParserState.Comes (s : ParserState) (token : Token) : Prop :=
  (s.lookahead?.map (·.token) == some token) = true

/-- **From one state to another some lexemes are taken**: those, and nothing else has changed. -/
structure Consumes (s : ParserState) (l : List Lexeme) (s' : ParserState) : Prop where
  lexemes_eq : s.lexemes = l ++ s'.lexemes
  ending_eq : s'.ending = s.ending
  lastStop_eq : s'.lastStop = stopAfter s.lastStop l

namespace Consumes

variable {s s' s'' : ParserState} {l l' : List Lexeme}

theorem refl (s : ParserState) : Consumes s [] s :=
  ⟨rfl, rfl, rfl⟩

theorem trans (h : Consumes s l s') (h' : Consumes s' l' s'') : Consumes s (l ++ l') s'' where
  lexemes_eq := by rw [h.lexemes_eq, h'.lexemes_eq, List.append_assoc]
  ending_eq := h'.ending_eq.trans h.ending_eq
  lastStop_eq := by rw [h'.lastStop_eq, h.lastStop_eq, Grammar.stopAfter_append]

theorem cons {x : Lexeme} (h : Consumes s [x] s') (h' : Consumes s' l s'') :
    Consumes s (x :: l) s'' :=
  h.trans h'

/-- Nothing else is taken with no lexeme. -/
theorem eq_of_nil (h : Consumes s [] s') : s' = s := by
  obtain ⟨h₁, h₂, h₃⟩ := h
  obtain ⟨lexemes, ending, stop⟩ := s
  obtain ⟨lexemes', ending', stop'⟩ := s'
  obtain rfl : lexemes = lexemes' := h₁
  obtain rfl : ending' = ending := h₂
  obtain rfl : stop' = stop := h₃
  rfl

theorem length_le (h : Consumes s l s') : s'.lexemes.length ≤ s.lexemes.length := by
  rw [h.lexemes_eq, List.length_append]
  omega

theorem length_lt (h : Consumes s l s') (hl : l ≠ []) :
    s'.lexemes.length < s.lexemes.length := by
  have hpos := List.length_pos_iff.2 hl
  rw [h.lexemes_eq, List.length_append]
  omega

/-- The next lexeme is taken. -/
theorem advance {x : Lexeme} {rest : List Lexeme} (h : s.lexemes = x :: rest) :
    Consumes s [x] s.advance := by
  rw [ParserState.advance, h]
  exact ⟨h, rfl, rfl⟩

/-- What is taken in one go is taken in two. -/
theorem split (h : Consumes s (l ++ l') s') : ∃ s₁, Consumes s l s₁ ∧ Consumes s₁ l' s' := by
  obtain ⟨h₁, h₂, h₃⟩ := h
  refine ⟨⟨l' ++ s'.lexemes, s.ending, stopAfter s.lastStop l⟩, ⟨?_, rfl, rfl⟩, ⟨rfl, h₂, ?_⟩⟩
  · rw [h₁, List.append_assoc]
  · rw [h₃, Grammar.stopAfter_append]

theorem tail {x : Lexeme} (h : Consumes s (x :: l) s') : Consumes s.advance l s' := by
  obtain ⟨h₁, h₂, h₃⟩ := h
  rw [ParserState.advance, h₁]
  exact ⟨rfl, h₂, h₃⟩

theorem split_after {x : Lexeme} (h : Consumes s (l ++ x :: l') s') :
    ∃ s₁, Consumes s (l ++ [x]) s₁ ∧ Consumes s₁ l' s' := by
  rw [← List.singleton_append, ← List.append_assoc] at h
  exact h.split

theorem lexemes_cons {x : Lexeme} (h : Consumes s (x :: l) s') :
    s.lexemes = x :: (l ++ s'.lexemes) :=
  h.lexemes_eq

theorem head {x : Lexeme} (h : Consumes s (x :: l) s') : Consumes s [x] s.advance := by
  refine ⟨?_, ?_, ?_⟩
  · rw [ParserState.advance, h.lexemes_cons]
    rfl
  · rw [ParserState.advance, h.lexemes_cons]
  · rw [ParserState.advance, h.lexemes_cons]
    rfl

/-- The first lexeme that is taken is the one that comes next. -/
theorem lookahead_eq {x : Lexeme} (h : Consumes s (x :: l) s') : s.lookahead? = some x := by
  rw [ParserState.lookahead?, h.lexemes_cons]

theorem comes {x : Lexeme} (h : Consumes s (x :: l) s') : s.Comes x.token := by
  rw [ParserState.Comes, h.lookahead_eq]
  exact beq_self_eq_true _

theorem not_comes {x : Lexeme} {token : Token} (h : Consumes s (x :: l) s')
    (hne : x.token ≠ token) : ¬ s.Comes token := by
  rw [ParserState.Comes, h.lookahead_eq, Option.map_some, beq_iff_eq, Option.some.injEq]
  exact hne

end Consumes

namespace Parse

variable {s s' : ParserState}

/-! ### Single lexemes -/

theorem advance_apply (s : ParserState) : advance s = .ok () s.advance :=
  rfl

theorem comes_apply (token : Token) (s : ParserState) :
    comes token s = .ok (s.lookahead?.map (·.token) == some token) s :=
  rfl

/-- Choosing by the next token is a choice between two parsers in the same state. -/
theorem comes_bind {α : Type} (token : Token) (f : Bool → Parse α) (s : ParserState) :
    (comes token >>= f) s = f (s.lookahead?.map (·.token) == some token) s :=
  rfl

/-- The token that comes next, if it is not the end of the text, is that of the next lexeme. -/
theorem exists_cons_of_lookahead {token : Token} (hne : token ≠ .eof)
    (h : s.Comes token) :
    ∃ span rest, s.lexemes = ⟨token, span⟩ :: rest := by
  obtain ⟨lexemes, ending, stop⟩ := s
  cases lexemes with
  | cons x rest =>
    obtain ⟨t, span⟩ := x
    obtain rfl : t = token := by simpa [ParserState.Comes, ParserState.lookahead?] using h
    exact ⟨span, rest, rfl⟩
  | nil =>
    cases ending with
    | eof offset =>
      have heof : Token.eof = token := by
        simpa [ParserState.Comes, ParserState.lookahead?] using h
      exact absurd heof.symm hne
    | broken error => simp [ParserState.Comes, ParserState.lookahead?] at h

/-- **A token that is expected and found is taken**, and nothing else. -/
theorem consumes_of_expect {token : Token} {span : Span} (h : expect token s = .ok span s') :
    Consumes s [⟨token, span⟩] s' := by
  rw [expect, get_bind] at h
  cases hs : s.lexemes with
  | nil =>
    rw [hs] at h
    cases h
  | cons x rest =>
    rw [hs] at h
    dsimp only at h
    by_cases htoken : x.token = token
    · rw [if_pos htoken] at h
      cases h
      rw [← htoken]
      exact .advance hs
    · rw [if_neg htoken] at h
      cases h

/-- **A name that is expected and found is taken**, and nothing else. -/
theorem consumes_of_expectName {ident : Ident} (h : expectName s = .ok ident s') :
    Consumes s [⟨.name ident.name, ident.span⟩] s' := by
  rw [expectName, get_bind] at h
  cases hs : s.lexemes with
  | nil =>
    rw [hs] at h
    cases h
  | cons x rest =>
    rw [hs] at h
    obtain ⟨token, span⟩ := x
    cases token with
    | name text =>
      cases h
      exact .advance hs
    | _ => cases h

/-! ### Semicolons -/

/-- Lexemes that are all semicolons. -/
def Semicolons (l : List Lexeme) : Prop :=
  ∀ x ∈ l, x.token = .symbol .semicolon

theorem skipSemicolonsWithin_spec : ∀ (n : Nat) {s s' : ParserState} {u : Unit},
    s.lexemes.length ≤ n → skipSemicolonsWithin n s = .ok u s' →
    ∃ l, Consumes s l s' ∧ Semicolons l ∧
      (s'.lookahead?.map (·.token) == some (.symbol .semicolon)) = false
  | 0, s, s', _, hn, h => by
    cases h
    refine ⟨[], .refl s, by simp [Semicolons], ?_⟩
    -- no lexeme is left, so no semicolon either
    rw [← Bool.not_eq_true]
    intro hcomes
    obtain ⟨span, rest, hs⟩ := exists_cons_of_lookahead (by simp) hcomes
    rw [hs] at hn
    simp at hn
  | n + 1, s, s', _, hn, h => by
    rw [skipSemicolonsWithin, comes_bind] at h
    split at h
    · next hcomes =>
      obtain ⟨span, rest, hs⟩ := exists_cons_of_lookahead (by simp) hcomes
      obtain ⟨_, s₁, hadvance, hskip⟩ := bind_eq_ok_iff.1 h
      cases hadvance
      have hstep := Consumes.advance hs
      have hlt := hstep.length_lt (by simp)
      obtain ⟨l, hl, hsemi, hnext⟩ := skipSemicolonsWithin_spec n (by omega) hskip
      refine ⟨_, hstep.cons hl, ?_, hnext⟩
      intro x hx
      rcases List.mem_cons.1 hx with rfl | hx
      · rfl
      · exact hsemi x hx
    · next hcomes =>
      cases h
      exact ⟨[], .refl s, by simp [Semicolons], by simpa using hcomes⟩

/-- **All semicolons that come next are taken**, and after them comes none. -/
theorem consumes_of_skipSemicolons {u : Unit} (h : skipSemicolons s = .ok u s') :
    ∃ l, Consumes s l s' ∧ Semicolons l ∧
      (s'.lookahead?.map (·.token) == some (.symbol .semicolon)) = false :=
  skipSemicolonsWithin_spec _ (Nat.le_refl _) h

end Parse

end Script
