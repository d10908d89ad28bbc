import Script.Proofs.Parser.Pulling.State
import Script.Proofs.Parser.Repetition

/-!
# A pulling parser agrees with a parser of the stream

Where a parser that pulls stands as a parser of the stream stands, both come out alike: with the
same result or the same error, and again in states that stand alike (`Pull.Matches`). The depth is
afterwards what it was before (`Pull.Agrees`), which is said along with it, since the levels that a
parser of the stream has left tell how deep the other one is.

* `Pull.Matches.bind`, `Pull.Agrees.bind`: a sequence of parsers;
* `Pull.agrees_expect`, `Pull.agrees_skipSemicolons`: single tokens;
* `Pull.agrees_list`: items with commas between them.
-/

namespace Script

/-! ### States that stand alike -/

namespace Puller

variable {readings : List Reading} {S : Puller} {s : ParserState} {x : Lexeme}
  {rest : List Lexeme}

/-- How deep it is does not count for what a puller shows. -/
theorem Shows.withDepth (h : S.Shows readings s) (depth : Nat) :
    Shows readings { S with depth := depth } s where
  current_eq := h.current_eq
  failure_eq := h.failure_eq
  lastStop_eq := h.lastStop_eq
  pulled := h.pulled
  comments_eq := h.comments_eq
  ahead x rest hs :=
    have ha := h.ahead x rest hs
    ⟨ha.readings_eq, ha.goesOn, ha.comments_eq, ha.stream⟩

theorem Shows.current_of_cons (h : S.Shows readings s) (hs : s.lexemes = x :: rest) :
    S.current? = some x := by
  rw [h.current_eq, ParserState.lookahead?, hs]

/-- A lexeme that is left is not the end of the text. -/
theorem Shows.token_ne_eof (h : S.Shows readings s) (hs : s.lexemes = x :: rest) :
    x.token ≠ .eof := by
  obtain ⟨before, after, -, hpulled, -⟩ := h.pulled
  rw [hs] at hpulled
  have hmem : .ok x ∈ S.pulled := by
    rw [hpulled]
    exact List.mem_append_right before (List.mem_singleton_self _)
  obtain ⟨y, hy, htoken⟩ := (h.ahead x rest hs).goesOn _ hmem
  cases hy
  exact htoken

/-- With nothing left there is the end of the text in front, or nothing at all. -/
theorem Shows.current_of_nil (h : S.Shows readings s) (hs : s.lexemes = []) :
    S.current? = none ∨ ∃ span, S.current? = some ⟨.eof, span⟩ := by
  rw [h.current_eq, ParserState.lookahead?, hs]
  cases s.ending with
  | eof offset => exact .inr ⟨_, rfl⟩
  | broken error => exact .inl rfl

/-- With the end of the text or nothing in front, nothing is left. -/
theorem Shows.lexemes_eq_nil (h : S.Shows readings s) (hx : ∀ x ∈ s.lookahead?, x.token = .eof) :
    s.lexemes = [] := by
  cases hs : s.lexemes with
  | nil => rfl
  | cons x rest =>
    rw [ParserState.lookahead?, hs] at hx
    exact absurd (hx x rfl) (h.token_ne_eof hs)

/-- With nothing in front there was a lexical error. -/
theorem Shows.exists_failure (h : S.Shows readings s) (hx : s.lookahead? = none) :
    ∃ error, S.failure? = some error := by
  rw [h.failure_eq]
  obtain ⟨lexemes, ending, stop⟩ := s
  cases lexemes with
  | cons x rest => cases hx
  | nil =>
    cases ending with
    | eof offset => cases hx
    | broken error => exact ⟨error, rfl⟩

theorem Shows.endError_eq (h : S.Shows readings s) (hs : s.lexemes = []) :
    S.endError = s.endError := by
  rw [endError, h.failure_eq, h.lastStop_eq, ParserState.lexicalError?, hs, ParserState.endError]
  cases s.ending <;> rfl

theorem Shows.depthError_eq (h : S.Shows readings s) : S.depthError = s.depthError := by
  rw [depthError, h.current_eq, h.lastStop_eq]
  rfl

theorem Shows.operator?_eq (h : S.Shows readings s) : S.operator? = s.operator? := by
  rw [operator?, h.current_eq]
  rfl

end Puller

namespace Pull

variable {α β : Type} {readings : List Reading} {d : Nat} {S S' : Puller} {s s' : ParserState}
  {x : Lexeme} {rest : List Lexeme}

/-! ### Sequences -/

section Sequences

variable {p : Pull α} {q : Parse α} {f : α → Pull β} {g : α → Parse β} {P Q : Nat → Prop}

theorem bind_apply {a : α} (h : p S = some (.ok a, S')) : (p >>= f) S = f a S' := by
  show Option.bind (p S) _ = _
  rw [h]
  rfl

theorem bind_apply_error {error : ParseError} (h : p S = some (.error error, S')) :
    (p >>= f) S = some (.error error, S') := by
  show Option.bind (p S) _ = _
  rw [h]
  rfl

theorem get_bind {h : Puller → Pull α} : (get >>= h) S = h S S :=
  rfl

/-- **Both come out alike**, with the same result or the same error, in states that stand alike and
at a depth that is as it should be. -/
inductive Matches (readings : List Reading) (P : Nat → Prop) :
    Option (Except ParseError α × Puller) → EStateM.Result ParseError ParserState α → Prop where
  | ok (a : α) {S : Puller} {s : ParserState} (h : S.Shows readings s) (hdepth : P S.depth) :
      Matches readings P (some (.ok a, S)) (.ok a s)
  | error (error : ParseError) {S : Puller} {s : ParserState} (h : S.Shows readings s)
      (hdepth : P S.depth) : Matches readings P (some (.error error, S)) (.error error s)

theorem Matches.exists_puller {outcome : Option (Except ParseError α × Puller)}
    {result : EStateM.Result ParseError ParserState α} (h : Matches readings P outcome result) :
    ∃ S, outcome = some (withoutState result, S) ∧ S.Shows readings (endState result) := by
  cases h with
  | ok a h => exact ⟨_, rfl, h⟩
  | error error h => exact ⟨_, rfl, h⟩

/-- Where both stand alike at a certain depth, they come out alike and at this depth again. -/
def Agrees (readings : List Reading) (d : Nat) (p : Pull α) (q : Parse α) : Prop :=
  ∀ S s, S.Shows readings s → S.depth = d → Matches readings (· = d) (p S) (q s)

/-- **A sequence of parsers**: the second goes on where the first has led. -/
theorem Matches.bind (h : Matches readings P (p S) (q s)) (hdepth : ∀ d, P d → Q d)
    (hf : ∀ a S' s', q s = .ok a s' → S'.Shows readings s' → P S'.depth →
      Matches readings Q (f a S') (g a s')) :
    Matches readings Q ((p >>= f) S) ((q >>= g) s) := by
  generalize hp : p S = outcome at h
  generalize hq : q s = result at h
  cases h with
  | ok a h hd =>
    rw [bind_apply hp, bind_ok hq]
    exact hf a _ _ hq h hd
  | error error h hd =>
    rw [bind_apply_error hp, bind_error hq]
    exact .error error h (hdepth _ hd)

theorem Matches.weaken (h : Matches readings P (p S) (q s)) (hdepth : ∀ d, P d → Q d) :
    Matches readings Q (p S) (q s) := by
  generalize p S = outcome at h ⊢
  generalize q s = result at h ⊢
  cases h with
  | ok a h hd => exact .ok a h (hdepth _ hd)
  | error error h hd => exact .error error h (hdepth _ hd)

/-- After the first of two parsers that agree, the second ones have to. -/
theorem Matches.andThen (h : Matches readings (· = d) (p S) (q s))
    (hf : ∀ a, Agrees readings d (f a) (g a)) :
    Matches readings (· = d) ((p >>= f) S) ((q >>= g) s) :=
  h.bind (fun _ => id) fun a S' s' _ hs' hd' => hf a S' s' hs' hd'

theorem Agrees.bind (h : Agrees readings d p q) (hf : ∀ a, Agrees readings d (f a) (g a)) :
    Agrees readings d (p >>= f) (q >>= g) :=
  fun S s hs hd => (h S s hs hd).andThen hf

theorem Agrees.pure (a : α) : Agrees readings d (Pure.pure a : Pull α) (Pure.pure a) :=
  fun _ _ hs hd => .ok a hs hd

theorem Agrees.map (h : Agrees readings d p q) (f : α → β) :
    Agrees readings d (f <$> p) (f <$> q) := by
  rw [map_eq_pure_bind, map_eq_pure_bind]
  exact h.bind fun a => .pure (f a)

end Sequences

/-! ### Single tokens -/

theorem matches_failAtEnd (h : S.Shows readings s) (hd : S.depth = d) (hs : s.lexemes = []) :
    Matches readings (· = d) ((failAtEnd : Pull α) S) ((Parse.failAtEnd : Parse α) s) := by
  show Matches readings _ (some (.error S.endError, S)) (.error s.endError s)
  rw [h.endError_eq hs]
  exact .error _ h hd

/-- The lexeme in front is handed out. -/
theorem exists_nextToken (h : S.Shows readings s) (hs : s.lexemes = x :: rest) :
    ∃ S', nextToken S = some (.ok (some x), S') ∧ S'.Shows readings s.advance ∧
      S'.depth = S.depth := by
  obtain ⟨S', hstep, hshows, hdepth⟩ := Puller.exists_step h hs
  refine ⟨S', ?_, hshows, hdepth⟩
  rw [← h.current_of_cons hs]
  show Option.bind S.step _ = _
  rw [hstep]
  rfl

theorem matches_nextToken_bind {f : Option Lexeme → Pull α} {q : Parse α}
    (h : S.Shows readings s) (hd : S.depth = d) (hs : s.lexemes = x :: rest)
    (hf : Agrees readings d (f (some x)) q) :
    Matches readings (· = d) ((nextToken >>= f) S) ((Parse.advance >>= fun _ => q) s) := by
  obtain ⟨S', hnext, hshows, hdepth⟩ := exists_nextToken h hs
  rw [bind_apply hnext]
  exact hf S' s.advance hshows (hdepth.trans hd)

/-- The lexeme in front is passed. -/
theorem exists_step (h : S.Shows readings s) (hs : s.lexemes = x :: rest) :
    ∃ S', step S = some (.ok (), S') ∧ S'.Shows readings s.advance ∧ S'.depth = S.depth := by
  obtain ⟨S', hnext, hshows, hdepth⟩ := exists_nextToken h hs
  refine ⟨S', ?_, hshows, hdepth⟩
  rw [step, bind_apply hnext]
  rfl

theorem matches_step (h : S.Shows readings s) (hd : S.depth = d) (hs : s.lexemes = x :: rest) :
    Matches readings (· = d) (step S) (Parse.advance s) := by
  obtain ⟨S', hstep, hshows, hdepth⟩ := exists_step h hs
  rw [hstep]
  exact .ok () hshows (hdepth.trans hd)

theorem comes_apply (h : S.Shows readings s) (token : Token) :
    comes token S = some (.ok (s.lookahead?.map (·.token) == some token), S) := by
  rw [← h.current_eq]
  rfl

theorem agrees_comes (token : Token) : Agrees readings d (comes token) (Parse.comes token) := by
  intro S s h hd
  rw [comes_apply h, Parse.comes_apply]
  exact .ok _ h hd

theorem comes_of_comes {token : Token} (h : S.Shows readings s) (hcomes : s.Comes token) :
    comes token S = some (.ok true, S) := by
  rw [comes_apply h, show (s.lookahead?.map (·.token) == some token) = true from hcomes]

theorem comes_of_not_comes {token : Token} (h : S.Shows readings s) (hcomes : ¬ s.Comes token) :
    comes token S = some (.ok false, S) := by
  rw [comes_apply h, Bool.eq_false_iff.2 hcomes]

/-- Where a certain token comes next, it is passed. -/
theorem exists_comes_step {token : Token} (hne : token ≠ .eof) (h : S.Shows readings s)
    (hcomes : s.Comes token) (p p' : Pull α) :
    ∃ S', (comes token >>= fun b => if b = true then step >>= fun _ => p else p') S = p S' ∧
      S'.Shows readings s.advance ∧ S'.depth = S.depth := by
  obtain ⟨span, rest, hs⟩ := Parse.exists_cons_of_lookahead hne hcomes
  obtain ⟨S', hstep, hshows, hdepth⟩ := exists_step h hs
  refine ⟨S', ?_, hshows, hdepth⟩
  rw [bind_apply (comes_of_comes h hcomes), if_pos rfl, bind_apply hstep]

/-- Where a certain token is passed if it comes next, both go the same way. -/
theorem matches_comes_bind {token : Token} {p p' : Pull α} {q q' : Parse α} (hne : token ≠ .eof)
    (h : S.Shows readings s) (hd : S.depth = d)
    (hthen : s.Comes token → ∀ S', S'.Shows readings s.advance → S'.depth = d →
      Matches readings (· = d) (p S') (q s.advance))
    (helse : ¬ s.Comes token → Matches readings (· = d) (p' S) (q' s)) :
    Matches readings (· = d)
      ((comes token >>= fun b => if b = true then step >>= fun _ => p else p') S)
      ((Parse.comes token >>= fun b =>
        if b = true then Parse.advance >>= fun _ => q else q') s) := by
  by_cases hcomes : s.Comes token
  · obtain ⟨S', hstep, hshows, hdepth⟩ := exists_comes_step hne h hcomes p p'
    rw [hstep, bind_ok (Parse.comes_of_comes hcomes)]
    exact hthen hcomes S' hshows (hdepth.trans hd)
  · rw [bind_apply (comes_of_not_comes h hcomes), bind_ok (Parse.comes_of_not_comes hcomes)]
    exact helse hcomes

theorem expect_apply (token : Token) (hcurrent : S.current? = some x) :
    expect token S = (if x.token = token then step >>= fun _ => pure x.span
      else throw (S.unexpected token)) S := by
  rw [expect, get_bind, hcurrent]

/-- A token that comes next is taken where it is expected. -/
theorem exists_expect {token : Token} {span : Span} (h : S.Shows readings s)
    (hs : s.lexemes = ⟨token, span⟩ :: rest) :
    ∃ S', expect token S = some (.ok span, S') ∧ S'.Shows readings s.advance ∧
      S'.depth = S.depth := by
  obtain ⟨S', hstep, hshows, hdepth⟩ := exists_step h hs
  refine ⟨S', ?_, hshows, hdepth⟩
  rw [expect_apply token (h.current_of_cons hs), if_pos rfl, bind_apply hstep]
  rfl

theorem expect_of_nil {token : Token} (hne : token ≠ .eof) (h : S.Shows readings s)
    (hs : s.lexemes = []) : expect token S = some (.error s.endError, S) := by
  rw [← h.endError_eq hs]
  rcases h.current_of_nil hs with hcurrent | ⟨span, hcurrent⟩
  · rw [expect, get_bind, hcurrent, Puller.unexpected, hcurrent]
    rfl
  · rw [expect_apply token hcurrent, if_neg hne.symm, Puller.unexpected, hcurrent]
    rfl

theorem agrees_expect {token : Token} (hne : token ≠ .eof) :
    Agrees readings d (expect token) (Parse.expect token) := by
  intro S s h hd
  cases hs : s.lexemes with
  | nil =>
    rw [expect_of_nil hne h hs, Parse.expect_of_nil token hs]
    exact .error _ h hd
  | cons x rest =>
    rw [expect_apply token (h.current_of_cons hs), Parse.expect, Script.get_bind, hs]
    dsimp only
    by_cases htoken : x.token = token
    · rw [if_pos htoken, if_pos htoken]
      exact (matches_step h hd hs).andThen fun _ => .pure x.span
    · -- The message depends on whether anything is left, which it is.
      have hunexpected : S.unexpected token = ⟨.unexpectedToken x.token token, x.span⟩ := by
        rw [Puller.unexpected, h.current_of_cons hs]
        split
        · next heq =>
          cases heq
          exact absurd rfl (h.token_ne_eof hs)
        · next heq =>
          cases heq
          rfl
        · next heq => cases heq
      rw [if_neg htoken, if_neg htoken, hunexpected]
      exact .error _ h hd

theorem agrees_expectName : Agrees readings d expectName Parse.expectName := by
  intro S s h hd
  rw [expectName, get_bind, Parse.expectName, Script.get_bind]
  cases hs : s.lexemes with
  | nil =>
    rcases h.current_of_nil hs with hcurrent | ⟨span, hcurrent⟩ <;>
    · rw [hcurrent]
      exact matches_failAtEnd h hd hs
  | cons x rest =>
    rw [h.current_of_cons hs]
    have hne := h.token_ne_eof hs
    obtain ⟨token, span⟩ := x
    cases token with
    | name text => exact (matches_step h hd hs).andThen fun _ => .pure _
    | eof => exact absurd rfl hne
    | _ => exact .error _ h hd

theorem matches_skipSemicolonsWithin : ∀ (n : Nat) (S : Puller) (s : ParserState),
    s.lexemes.length < n → S.Shows readings s → S.depth = d →
    Matches readings (· = d) (skipSemicolonsWithin n S) (Parse.skipSemicolons s)
  | 0, _, _, hn, _, _ => by omega
  | n + 1, S, s, hn, h, hd => by
    rw [skipSemicolonsWithin]
    by_cases hcomes : s.Comes (.symbol .semicolon)
    · obtain ⟨span, rest, hs⟩ := Parse.exists_cons_of_lookahead (by simp) hcomes
      obtain ⟨S', hstep, hshows, hdepth⟩ :=
        exists_comes_step (by simp) h hcomes (skipSemicolonsWithin n) (pure ())
      have hlt := Parse.length_advance_lt (by simp) hcomes
      rw [hstep, Parse.skipSemicolons_of_comes hs]
      exact matches_skipSemicolonsWithin n S' s.advance (by omega) hshows (hdepth.trans hd)
    · rw [bind_apply (comes_of_not_comes h hcomes), Parse.skipSemicolons_of_not_comes hcomes]
      exact .ok () h hd

theorem agrees_skipSemicolons : Agrees readings d skipSemicolons Parse.skipSemicolons := by
  intro S s h hd
  rw [skipSemicolons, get_bind]
  exact matches_skipSemicolonsWithin S.rounds S s h.length_lt_rounds h hd

/-! ### Lists -/

section Lists

variable {item : Pull α} {item' : Parse α} (htakes : Parse.Takes item')
  (hitem : Agrees readings d item item')
include htakes hitem

theorem matches_afterCommasWithin : ∀ (n : Nat) (S : Puller) (s : ParserState),
    s.lexemes.length < n → S.Shows readings s → S.depth = d →
    Matches readings (· = d) (afterCommasWithin item n S) (Parse.afterCommas item' s)
  | 0, _, _, hn, _, _ => by omega
  | n + 1, S, s, hn, h, hd => by
    rw [afterCommasWithin]
    by_cases hcomes : s.Comes (.symbol .comma)
    · obtain ⟨S', hstep, hshows, hdepth⟩ := exists_comes_step (by simp) h hcomes
        (item >>= fun x => afterCommasWithin item n >>= fun xs => pure (x :: xs)) (pure [])
      have hlt := Parse.length_advance_lt (by simp) hcomes
      rw [hstep, Parse.afterCommas_of_comes htakes hcomes]
      refine (hitem S' s.advance hshows (hdepth.trans hd)).bind (fun _ => id) ?_
      intro x S₂ s₂ hx h₂ hd₂
      have hle := htakes.length_le hx
      exact (matches_afterCommasWithin n S₂ s₂ (by omega) h₂ hd₂).andThen fun xs => .pure (x :: xs)
    · rw [bind_apply (comes_of_not_comes h hcomes), Parse.afterCommas_of_not_comes hcomes]
      exact .ok [] h hd

theorem agrees_list (closing : Symbol) :
    Agrees readings d (list item closing) (Parse.list item' closing) := by
  refine (agrees_comes _).bind fun closes => ?_
  cases closes with
  | true => exact (agrees_expect (by simp)).bind fun close => .pure _
  | false =>
    have hafter : Agrees readings d (afterCommas item) (Parse.afterCommas item') := by
      intro S s h hd
      rw [afterCommas, get_bind]
      exact matches_afterCommasWithin htakes hitem S.rounds S s h.length_lt_rounds h hd
    exact hitem.bind fun x => hafter.bind fun xs => (agrees_expect (by simp)).bind fun close =>
      .pure _

end Lists

end Pull

end Script
