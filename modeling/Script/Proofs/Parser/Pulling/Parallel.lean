import Script.Proofs.Parser.Pulling.Agreement

/-!
# Parsers that pull, side by side

Two parsers that pull are *alike* if the same lexeme is in front of both, their lexers stand at the
same place, they have met the same lexical error and are equally deep. Nothing is asked of how they
have come there. What they do next is the same, up to one thing: where the last lexeme ended tells
where some errors are. So all statements here have a condition `samePlace`, under which the last
lexemes have ended at the same place too, and then the errors are the same altogether.

The parsers may be in any state, also in one that no text leads to. That they come to an end is
therefore shown along with the rest: whatever takes a lexeme leaves less to come (`Puller.left`).
Under a second condition, `inOrder`, what is in front was handed out by the lexer last.

* `Puller.SameFront`, `Puller.Drawn`: what is in front, and where it came from;
* `Puller.Alike`: states that are alike;
* `Pull.Parallel`: outcomes that are, in states that are alike again;
* `Pull.Along`: parsers that come to such outcomes, and leave the depth as it was;
* `Pull.along_expect`, `Pull.along_list`: single tokens and lists.
-/

namespace Script

variable {samePlace inOrder : Prop}

/-- **Errors that are alike**: they have the same cause, and under a condition the same place. -/
structure ParseError.Alike (samePlace : Prop) (e e' : ParseError) : Prop where
  cause_eq : e.cause = e'.cause
  eq : samePlace → e = e'

theorem ParseError.Alike.refl (samePlace : Prop) (e : ParseError) : e.Alike samePlace e :=
  ⟨rfl, fun _ => rfl⟩

namespace Puller

variable {S R : Puller} {x : Lexeme}

/-! ### What can still come -/

/-- How many lexemes can still come, at most: each of them takes a character. -/
def left (S : Puller) : Nat :=
  match S.current? with
  | none => S.lexer.rest.length
  | some x => if x.token = .eof then S.lexer.rest.length else S.lexer.rest.length + 1

theorem left_of_none (h : S.current? = none) : S.left = S.lexer.rest.length := by
  rw [left, h]

theorem left_of_eof (h : S.current? = some x) (hx : x.token = .eof) :
    S.left = S.lexer.rest.length := by
  rw [left, h]
  exact if_pos hx

theorem left_of_token (h : S.current? = some x) (hx : x.token ≠ .eof) :
    S.left = S.lexer.rest.length + 1 := by
  rw [left, h]
  exact if_neg hx

/-- A loop may go round more often than lexemes can come. -/
theorem left_lt_rounds (S : Puller) : S.left < S.rounds := by
  unfold left rounds
  split
  · omega
  · split <;> omega

/-! ### States that are alike -/

/-- **The same is in front**: the lexeme, what the lexer has left, and the lexical error. -/
structure SameFront (S R : Puller) : Prop where
  current_eq : S.current? = R.current?
  lexer_eq : S.lexer = R.lexer
  failure_eq : S.failure? = R.failure?

/-- What is in front was handed out by the lexer last, be it a lexeme or a lexical error. -/
def Drawn (S : Puller) : Prop :=
  ∃ c : Cursor,
    (∃ x, c.next = (.ok x, S.lexer) ∧ x.token ≠ .comment ∧ S.current? = some x ∧
      S.failure? = none) ∨
    ∃ error, c.next = (.error error, S.lexer) ∧ S.current? = none ∧ S.failure? = some error

/-- **States that are alike** in what is in front of them and in their depth. Under one condition
the last lexemes have ended at the same place, under another what is in front was drawn last. -/
structure Alike (samePlace inOrder : Prop) (S R : Puller) : Prop extends S.SameFront R where
  depth_eq : S.depth = R.depth
  lastStop_eq : samePlace → S.lastStop = R.lastStop
  drawn : inOrder → S.Drawn

namespace Alike

theorem withDepth (h : S.Alike samePlace inOrder R) {d e : Nat} (hde : d = e) :
    Alike samePlace inOrder { S with depth := d } { R with depth := e } :=
  ⟨⟨h.current_eq, h.lexer_eq, h.failure_eq⟩, hde, h.lastStop_eq, h.drawn⟩

theorem rounds_eq (h : S.Alike samePlace inOrder R) : S.rounds = R.rounds := by
  rw [rounds, rounds, h.lexer_eq]

theorem operator?_eq (h : S.Alike samePlace inOrder R) : S.operator? = R.operator? := by
  rw [operator?, operator?, h.current_eq]

theorem endError (h : S.Alike samePlace inOrder R) : S.endError.Alike samePlace R.endError := by
  rw [Puller.endError, Puller.endError, h.failure_eq]
  cases R.failure? with
  | some error => exact .refl samePlace _
  | none => exact ⟨rfl, fun hplace => by rw [h.lastStop_eq hplace]⟩

theorem depthError (h : S.Alike samePlace inOrder R) :
    S.depthError.Alike samePlace R.depthError := by
  rw [Puller.depthError, Puller.depthError, h.current_eq]
  cases R.current? with
  | some lexeme => exact .refl samePlace _
  | none => exact ⟨rfl, fun hplace => by rw [h.lastStop_eq hplace]⟩

theorem unexpected (h : S.Alike samePlace inOrder R) (expected : Token) :
    (S.unexpected expected).Alike samePlace (R.unexpected expected) := by
  rw [Puller.unexpected, Puller.unexpected, h.current_eq]
  split
  · exact h.endError
  · exact .refl samePlace _
  · exact h.endError

end Alike

/-- Pulling ends alike on both sides, and takes characters. -/
theorem exists_pullWithin_sameFront : ∀ (n : Nat) {S R : Puller}, S.lexer.rest.length < n →
    S.SameFront R → S.current? = none → S.failure? = none →
    ∃ S' R', pullWithin n S = some S' ∧ pullWithin n R = some R' ∧ S'.SameFront R' ∧ S'.Drawn ∧
      S'.left ≤ S.lexer.rest.length ∧ (S'.depth = S.depth ∧ S'.lastStop = S.lastStop) ∧
      R'.depth = R.depth ∧ R'.lastStop = R.lastStop
  | 0, _, _, hn, _, _, _ => by omega
  | n + 1, S, R, hn, h, hcurrent, hfailure => by
    -- Both lexers are the same cursor, so one reading serves for both: an error, a comment or a
    -- token.
    rcases hnext : S.lexer.next with ⟨reading, after⟩
    have hnext' : R.lexer.next = (reading, after) := h.lexer_eq ▸ hnext
    rcases reading with error | ⟨token, span⟩
    · have hlt : after.rest.length < S.lexer.rest.length := by
        have hlt := S.lexer.length_next_lt
        rw [hnext] at hlt
        exact hlt.resolve_left (by rintro ⟨_, ⟨⟩⟩)
      refine ⟨_, _, pullWithin_of_error n hnext, pullWithin_of_error n hnext',
        ⟨h.current_eq, rfl, rfl⟩, ⟨S.lexer, .inr ⟨error, hnext, hcurrent, rfl⟩⟩, ?_, ⟨rfl, rfl⟩,
        rfl, rfl⟩
      exact Nat.le_trans (Nat.le_of_eq (left_of_none hcurrent)) (Nat.le_of_lt hlt)
    by_cases hcomment : token = .comment
    · subst hcomment
      have hlt := Cursor.length_next_lt_of_ok hnext (by simp)
      rw [pullWithin_of_comment n hnext, pullWithin_of_comment n hnext']
      obtain ⟨S', R', hS, hR, hfront, hdrawn, hleft, hsame, hsame'⟩ :=
        exists_pullWithin_sameFront n
          (S := { S with
            lexer := after
            pulled := S.pulled ++ [.ok ⟨.comment, span⟩]
            comments := S.comments ++ [span] })
          (R := { R with
            lexer := after
            pulled := R.pulled ++ [.ok ⟨.comment, span⟩]
            comments := R.comments ++ [span] })
          (by dsimp only; omega) ⟨h.current_eq, rfl, h.failure_eq⟩ hcurrent hfailure
      exact ⟨S', R', hS, hR, hfront, hdrawn, Nat.le_trans hleft (Nat.le_of_lt hlt), hsame, hsame'⟩
    · refine ⟨_, _, pullWithin_of_token n hnext hcomment, pullWithin_of_token n hnext' hcomment,
        ⟨rfl, rfl, h.failure_eq⟩, ⟨S.lexer, .inl ⟨_, hnext, hcomment, rfl, hfailure⟩⟩, ?_,
        ⟨rfl, rfl⟩, rfl, rfl⟩
      -- What is left does not count the end of the text.
      by_cases heof : token = .eof
      · rw [left_of_eof rfl heof, (Cursor.eq_of_next_eof (heof ▸ hnext)).1]
        exact Nat.zero_le _
      · rw [left_of_token rfl heof]
        exact Cursor.length_next_lt_of_ok hnext heof

/-- The lexeme in front is handed out alike, and the next one is pulled. -/
theorem Alike.exists_step (h : S.Alike samePlace inOrder R) :
    ∃ S' R', S.step = some S' ∧ R.step = some R' ∧ S'.Alike samePlace inOrder R' ∧
      S'.depth = S.depth ∧ S'.left ≤ S.lexer.rest.length := by
  obtain ⟨lexer, pulled, current?, comments, failure?, lastStop, depth⟩ := S
  obtain ⟨_, pulled', _, comments', _, lastStop', _⟩ := R
  obtain ⟨⟨rfl, rfl, rfl⟩, rfl, hplace, hdrawn⟩ := h
  -- The step moves the end of the lexeme in front, if there is one, into `lastStop`.
  have htaken (hsame : samePlace) : (current?.map (·.span.stop)).getD lastStop =
      (current?.map (·.span.stop)).getD lastStop' :=
    congrArg (Option.getD _) (hplace hsame)
  -- A parser that has failed pulls nothing more.
  cases failure? with
  | some error =>
    refine ⟨_, _, rfl, rfl, ⟨⟨rfl, rfl, rfl⟩, rfl, htaken, fun hinOrder => ?_⟩, rfl, Nat.le_refl _⟩
    obtain ⟨c, ⟨x, -, -, -, hnone⟩ | ⟨_, hnext, -, hsome⟩⟩ := hdrawn hinOrder
    · cases hnone
    · exact ⟨c, .inr ⟨_, hnext, rfl, hsome⟩⟩
  | none =>
    obtain ⟨S', R', hS, hR, hfront, hdrawn', hleft, ⟨hdepth, hstop⟩, hdepth', hstop'⟩ :=
      exists_pullWithin_sameFront _
        (S := ⟨lexer, pulled, none, comments, none, (current?.map (·.span.stop)).getD lastStop,
          depth⟩)
        (R := ⟨lexer, pulled', none, comments', none, (current?.map (·.span.stop)).getD lastStop',
          depth⟩)
        (Nat.lt_add_of_pos_right Nat.two_pos) ⟨rfl, rfl, rfl⟩ rfl rfl
    refine ⟨S', R', hS, hR, ⟨hfront, hdepth.trans hdepth'.symm, fun hsame => ?_, fun _ => hdrawn'⟩,
      hdepth, hleft⟩
    rw [hstop, hstop']
    exact htaken hsame

end Puller

namespace Pull

variable {α β : Type} {S S' R R' : Puller} {d slack : Nat} {x : Lexeme}

/-! ### Sequences -/

/-- **Outcomes that are alike**: the same result, or errors that are alike, in states that are alike
and at a depth that is as it should be. After a result less than a bound is left to come. -/
inductive Parallel (samePlace inOrder : Prop) (P : Nat → Prop) (bound : Nat) :
    Option (Except ParseError α × Puller) → Option (Except ParseError α × Puller) → Prop where
  | ok (a : α) {S R : Puller} (h : S.Alike samePlace inOrder R) (hdepth : P S.depth)
      (hleft : S.left < bound) :
      Parallel samePlace inOrder P bound (some (.ok a, S)) (some (.ok a, R))
  | error {e e' : ParseError} (he : e.Alike samePlace e') {S R : Puller}
      (h : S.Alike samePlace inOrder R) (hdepth : P S.depth) :
      Parallel samePlace inOrder P bound (some (.error e, S)) (some (.error e', R))

section Sequences

variable {P Q : Nat → Prop} {bound more : Nat} {p q : Pull α} {f g : α → Pull β}

/-- A sequence of parsers: the second goes on where the first has led. -/
theorem Parallel.bind (h : Parallel samePlace inOrder P bound (p S) (q R)) (hdepth : ∀ d, P d → Q d)
    (hf : ∀ a S' R', S'.Alike samePlace inOrder R' → P S'.depth → S'.left < bound →
      Parallel samePlace inOrder Q more (f a S') (g a R')) :
    Parallel samePlace inOrder Q more ((p >>= f) S) ((q >>= g) R) := by
  generalize hp : p S = outcome at h
  generalize hq : q R = outcome' at h
  cases h with
  | ok a h hd hleft =>
    rw [bind_apply hp, bind_apply hq]
    exact hf a _ _ h hd hleft
  | error he h hd =>
    rw [bind_apply_error hp, bind_apply_error hq]
    exact .error he h (hdepth _ hd)

theorem Parallel.weaken (h : Parallel samePlace inOrder P bound (p S) (q R))
    (hdepth : ∀ d, P d → Q d) (hbound : bound ≤ more) :
    Parallel samePlace inOrder Q more (p S) (q R) := by
  generalize p S = outcome at h ⊢
  generalize q R = outcome' at h ⊢
  cases h with
  | ok a h hd hleft => exact .ok a h (hdepth _ hd) (Nat.lt_of_lt_of_le hleft hbound)
  | error he h hd => exact .error he h (hdepth _ hd)

/-- Parsers that go along with each other at a depth: in states that are alike they come to
outcomes that are alike, and the depth is as it was. With no slack a result has taken a lexeme. -/
def Along (samePlace inOrder : Prop) (d slack : Nat) (p q : Pull α) : Prop :=
  ∀ S R, S.Alike samePlace inOrder R → S.depth = d →
    Parallel samePlace inOrder (· = d) (S.left + slack) (p S) (q R)

/-- After the first of two parsers, the second ones have to go along. -/
theorem Parallel.andThen (h : Parallel samePlace inOrder (· = d) bound (p S) (q R))
    (hf : ∀ a, Along samePlace inOrder d 1 (f a) (g a)) :
    Parallel samePlace inOrder (· = d) bound ((p >>= f) S) ((q >>= g) R) :=
  h.bind (fun _ => id) fun a S' R' h' hd' hleft' =>
    (hf a S' R' h' hd').weaken (fun _ => id) hleft'

theorem Along.bind (h : Along samePlace inOrder d slack p q)
    (hf : ∀ a, Along samePlace inOrder d 1 (f a) (g a)) :
    Along samePlace inOrder d slack (p >>= f) (q >>= g) :=
  fun S R hS hd => (h S R hS hd).andThen hf

theorem Along.weaken (h : Along samePlace inOrder d 0 p q) : Along samePlace inOrder d 1 p q :=
  fun S R hS hd => (h S R hS hd).weaken (fun _ => id) (Nat.le_succ _)

theorem along_pure (a : α) : Along samePlace inOrder d 1 (pure a) (pure a) :=
  fun _ _ h hd => .ok a h hd (Nat.lt_succ_self _)

theorem Along.map (h : Along samePlace inOrder d slack p q) (f : α → β) :
    Along samePlace inOrder d slack (f <$> p) (f <$> q) := by
  rw [map_eq_pure_bind, map_eq_pure_bind]
  exact h.bind fun a => along_pure (f a)

end Sequences

/-! ### Single tokens -/

theorem along_throw (e : ParseError) :
    Along samePlace inOrder d slack (throw e : Pull α) (throw e) :=
  fun _ _ h hd => .error (.refl samePlace e) h hd

theorem along_failAtEnd : Along samePlace inOrder d slack (failAtEnd : Pull α) failAtEnd :=
  fun _ _ h hd => .error h.endError h hd

/-- The lexeme in front is handed out. -/
theorem parallel_nextToken (h : S.Alike samePlace inOrder R) (hd : S.depth = d)
    (hx : S.current? = some x) (htoken : x.token ≠ .eof) :
    ∃ S' R', nextToken S = some (.ok (some x), S') ∧
      nextToken R = some (.ok (some x), R') ∧ S'.Alike samePlace inOrder R' ∧ S'.depth = d ∧
      S'.left < S.left := by
  obtain ⟨S', R', hS, hR, h', hdepth, hleft⟩ := h.exists_step
  refine ⟨S', R', ?_, ?_, h', hdepth.trans hd, ?_⟩
  · show Option.bind S.step _ = _
    rw [hS, hx]
    rfl
  · show Option.bind R.step _ = _
    rw [hR, ← h.current_eq, hx]
    rfl
  · rw [S.left_of_token hx htoken]
    exact Nat.lt_succ_of_le hleft

theorem parallel_nextToken_bind {f g : Option Lexeme → Pull α} (h : S.Alike samePlace inOrder R)
    (hd : S.depth = d) (hx : S.current? = some x) (htoken : x.token ≠ .eof)
    (hf : Along samePlace inOrder d 1 (f (some x)) (g (some x))) :
    Parallel samePlace inOrder (· = d) S.left ((nextToken >>= f) S) ((nextToken >>= g) R) := by
  obtain ⟨S', R', hS, hR, h', hd', hleft⟩ := parallel_nextToken h hd hx htoken
  rw [bind_apply hS, bind_apply hR]
  exact (hf S' R' h' hd').weaken (fun _ => id) hleft

/-- The lexeme in front is passed. -/
theorem parallel_step (h : S.Alike samePlace inOrder R) (hd : S.depth = d)
    (hx : S.current? = some x) (htoken : x.token ≠ .eof) :
    Parallel samePlace inOrder (· = d) S.left (step S) (step R) :=
  parallel_nextToken_bind h hd hx htoken (along_pure ())

theorem comes_eq (token : Token) (S : Puller) :
    comes token S = some (.ok (S.current?.map (·.token) == some token), S) :=
  rfl

theorem along_comes (token : Token) : Along samePlace inOrder d 1 (comes token) (comes token) := by
  intro S R h hd
  rw [comes_eq, comes_eq, h.current_eq]
  exact .ok _ h hd (Nat.lt_succ_self _)

/-- Where a certain token is passed if it comes next, both go the same way. -/
theorem parallel_comes_bind {token : Token} (hne : token ≠ .eof) {p p' q q' : Pull α}
    {P : Nat → Prop} {bound : Nat} (h : S.Alike samePlace inOrder R) (hd : S.depth = d)
    (hdepth : P d)
    (hthen : ∀ S' R', S'.Alike samePlace inOrder R' → S'.depth = d → S'.left < S.left →
      Parallel samePlace inOrder P bound (p S') (q R'))
    (helse : Parallel samePlace inOrder P bound (p' S) (q' R)) :
    Parallel samePlace inOrder P bound
      ((comes token >>= fun b => if b = true then step >>= fun _ => p else p') S)
      ((comes token >>= fun b => if b = true then step >>= fun _ => q else q') R) := by
  rw [bind_apply (comes_eq token S), bind_apply (comes_eq token R), ← h.current_eq]
  by_cases hcomes : (S.current?.map (·.token) == some token) = true
  · obtain ⟨x, hx, rfl⟩ := Option.map_eq_some_iff.1 (beq_iff_eq.1 hcomes)
    rw [if_pos hcomes, if_pos hcomes]
    refine (parallel_step h hd hx hne).bind ?_ fun _ S' R' h' hd' hleft =>
      hthen S' R' h' hd' hleft
    rintro _ rfl
    exact hdepth
  · rw [if_neg hcomes, if_neg hcomes]
    exact helse

/-- **An expected token is taken.** -/
theorem along_expect {token : Token} (hne : token ≠ .eof) :
    Along samePlace inOrder d 0 (expect token) (expect token) := by
  intro S R h hd
  have hcurrent := h.current_eq
  cases hx : S.current? with
  | none =>
    rw [expect, get_bind, get_bind, ← hcurrent, hx]
    exact .error (h.unexpected token) h hd
  | some x =>
    rw [expect_apply token hx, expect_apply token (hcurrent.symm.trans hx)]
    by_cases htoken : x.token = token
    · rw [if_pos htoken, if_pos htoken]
      exact (parallel_step h hd hx (htoken ▸ hne)).andThen fun _ => along_pure x.span
    · rw [if_neg htoken, if_neg htoken]
      exact .error (h.unexpected token) h hd

theorem along_expectName : Along samePlace inOrder d 0 expectName expectName := by
  intro S R h hd
  have hcurrent := h.current_eq
  rw [expectName, get_bind, get_bind, ← hcurrent]
  cases hx : S.current? with
  | none => exact along_failAtEnd S R h hd
  | some x =>
    obtain ⟨token, span⟩ := x
    cases token with
    | name text => exact (parallel_step h hd hx (by simp)).andThen fun _ => along_pure _
    | eof => exact along_failAtEnd S R h hd
    | _ => exact along_throw _ S R h hd

theorem parallel_skipSemicolonsWithin : ∀ (n : Nat) {S R : Puller}, S.left < n →
    S.Alike samePlace inOrder R → S.depth = d →
    Parallel samePlace inOrder (· = d) (S.left + 1) (skipSemicolonsWithin n S)
      (skipSemicolonsWithin n R)
  | 0, _, _, hn, _, _ => by omega
  | n + 1, S, R, hn, h, hd => by
    rw [skipSemicolonsWithin]
    refine parallel_comes_bind (by simp) h hd rfl (fun S' R' h' hd' hleft => ?_)
      (along_pure () S R h hd)
    exact (parallel_skipSemicolonsWithin n (by omega) h' hd').weaken (fun _ => id) (by omega)

theorem along_skipSemicolons : Along samePlace inOrder d 1 skipSemicolons skipSemicolons := by
  intro S R h hd
  rw [skipSemicolons, get_bind, get_bind, ← h.rounds_eq]
  exact parallel_skipSemicolonsWithin S.rounds S.left_lt_rounds h hd

/-! ### Lists -/

section Lists

variable {item item' : Pull α} (hitem : Along samePlace inOrder d 1 item item')
include hitem

theorem parallel_afterCommasWithin : ∀ (n : Nat) {S R : Puller}, S.left < n →
    S.Alike samePlace inOrder R → S.depth = d →
    Parallel samePlace inOrder (· = d) (S.left + 1) (afterCommasWithin item n S)
      (afterCommasWithin item' n R)
  | 0, _, _, hn, _, _ => by omega
  | n + 1, S, R, hn, h, hd => by
    rw [afterCommasWithin, afterCommasWithin]
    refine parallel_comes_bind (by simp) h hd rfl (fun S₁ R₁ h₁ hd₁ hleft₁ => ?_)
      (along_pure [] S R h hd)
    refine (hitem S₁ R₁ h₁ hd₁).bind (fun _ => id) fun x S₂ R₂ h₂ hd₂ hleft₂ => ?_
    have hrest := parallel_afterCommasWithin n (S := S₂) (by omega) h₂ hd₂
    exact (hrest.andThen fun xs => along_pure (x :: xs)).weaken (fun _ => id) (by omega)

theorem along_list (closing : Symbol) :
    Along samePlace inOrder d 1 (list item closing) (list item' closing) := by
  refine (along_comes _).bind fun closes => ?_
  cases closes with
  | true => exact (along_expect (by simp)).weaken.bind fun close => along_pure _
  | false =>
    have hafter : Along samePlace inOrder d 1 (afterCommas item) (afterCommas item') := by
      intro S R h hd
      rw [afterCommas, afterCommas, get_bind, get_bind, ← h.rounds_eq]
      exact parallel_afterCommasWithin hitem S.rounds S.left_lt_rounds h hd
    exact hitem.bind fun x => hafter.bind fun xs => (along_expect (by simp)).weaken.bind
      fun close => along_pure _

end Lists

end Pull

end Script
