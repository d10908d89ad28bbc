import Script.Proofs.Parser.Tier

/-!
# Runs that only nesting can stop

Which levels of nesting a parser may use decides only whether it fails for the want of them. So what
a parser does with the lexemes of a phrase is said up to that one failure: it gives a value, unless
its levels are few and the nesting is too deep (`Gives`). Such runs follow one another as the steps
of a parser do.

* `Gives.bind`, `Gives.of_ok`: runs one after another;
* `gives_expect`, `gives_expectName`: single lexemes;
* `skipSemicolons_of_comes`, `skipSemicolons_of_not_comes`: semicolons one by one.
-/

namespace Script

namespace Parse

variable {α β : Type} {few : Prop} {s s' s'' : ParserState}

/-! ### Runs up to too deep nesting -/

/-- A run fails because the nesting is too deep. -/
def TooDeep (r : EStateM.Result ParseError ParserState α) : Prop :=
  ∃ error s, r = .error error s ∧ error.cause = .nestingTooDeep

/-- A parser gives a value and leaves a state, unless its levels are few and the nesting is too
deep. -/
def Gives (few : Prop) (p : Parse α) (s : ParserState) (a : α) (s' : ParserState) : Prop :=
  few ∧ TooDeep (p s) ∨ p s = .ok a s'

theorem tooDeep_bind {p : Parse α} {f : α → Parse β} (h : TooDeep (p s)) :
    TooDeep ((p >>= f) s) := by
  obtain ⟨error, s', h, hcause⟩ := h
  exact ⟨error, s', bind_error h, hcause⟩

theorem tooDeep_failTooDeep (s : ParserState) : TooDeep (failTooDeep (α := α) s) := by
  refine ⟨s.depthError, s, rfl, ?_⟩
  rw [ParserState.depthError]
  split <;> rfl

namespace Gives

variable {few' : Prop} {p : Parse α} {f : α → Parse β} {a : α} {b : β}

theorem of_ok (h : p s = .ok a s') : Gives few p s a s' :=
  .inr h

theorem eq_ok (h : Gives few p s a s') (hfew : ¬ few) : p s = .ok a s' :=
  h.resolve_left fun hdeep => hfew hdeep.1

theorem ok (h : Gives False p s a s') : p s = .ok a s' :=
  h.eq_ok id

theorem imp (h : Gives few p s a s') (hfew : few → few') : Gives few' p s a s' :=
  h.imp_left fun hdeep => ⟨hfew hdeep.1, hdeep.2⟩

/-- More levels may be too few. -/
theorem imp_le {levels n m : Nat} (h : Gives (levels ≤ n) p s a s') (hle : n ≤ m) :
    Gives (levels ≤ m) p s a s' :=
  h.imp fun hlevels => Nat.le_trans hlevels hle

theorem bind (h : Gives few p s a s') (hf : Gives few (f a) s' b s'') :
    Gives few (p >>= f) s b s'' := by
  rcases h with ⟨hfew, h⟩ | h
  · exact .inl ⟨hfew, tooDeep_bind h⟩
  · rw [Gives, bind_ok h]
    exact hf

/-- After a run that cannot fail. -/
theorem after (h : p s = .ok a s') (hf : Gives few (f a) s' b s'') :
    Gives few (p >>= f) s b s'' :=
  (of_ok h).bind hf

end Gives

/-! ### Single lexemes -/

theorem advance_of_consumes {x : Lexeme} (h : Consumes s [x] s') : s.advance = s' :=
  h.tail.eq_of_nil.symm

theorem gives_expect {token : Token} {span : Span} (h : Consumes s [⟨token, span⟩] s') :
    Gives few (expect token) s span s' := by
  refine .of_ok ?_
  rw [expect, get_bind, h.lexemes_cons]
  dsimp only
  rw [if_pos rfl, bind_ok (advance_apply s), advance_of_consumes h]
  rfl

theorem gives_expectName {text : String} {span : Span} (h : Consumes s [⟨.name text, span⟩] s') :
    Gives few expectName s ⟨text, span⟩ s' := by
  refine .of_ok ?_
  rw [expectName, get_bind, h.lexemes_cons]
  show (advance >>= fun _ => pure _) s = _
  rw [bind_ok (advance_apply s), advance_of_consumes h]
  rfl

theorem comes_of_comes {token : Token} (h : s.Comes token) : comes token s = .ok true s := by
  rw [comes_apply, show (s.lookahead?.map (·.token) == some token) = true from h]

theorem comes_of_not_comes {token : Token} (h : ¬ s.Comes token) : comes token s = .ok false s := by
  rw [comes_apply, Bool.eq_false_iff.2 h]

/-! ### Semicolons -/

theorem skipSemicolons_of_not_comes (h : ¬ s.Comes (.symbol .semicolon)) :
    skipSemicolons s = .ok () s := by
  rw [skipSemicolons, get_bind]
  cases s.lexemes.length with
  | zero => rfl
  | succ n =>
    rw [skipSemicolonsWithin, bind_ok (comes_of_not_comes h)]
    rfl

theorem skipSemicolons_of_comes {span : Span} {rest : List Lexeme}
    (h : s.lexemes = ⟨.symbol .semicolon, span⟩ :: rest) :
    skipSemicolons s = skipSemicolons s.advance := by
  have hlength : s.lexemes.length = s.advance.lexemes.length + 1 := by
    rw [ParserState.advance, h]
    rfl
  have hcomes : s.Comes (.symbol .semicolon) := by
    rw [ParserState.Comes, ParserState.lookahead?, h]
    exact beq_self_eq_true _
  rw [skipSemicolons, get_bind, get_bind, hlength, skipSemicolonsWithin,
    bind_ok (comes_of_comes hcomes)]
  show (advance >>= fun _ => skipSemicolonsWithin _) s = _
  rw [bind_ok (advance_apply s)]

end Parse

end Script
