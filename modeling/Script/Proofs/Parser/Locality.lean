import Script.Proofs.Lexeme.Feeding
import Script.Proofs.Parser.Soundness

/-!
# Parsers look one lexeme ahead

What a parser gives, and what it takes, depends on the lexemes that it takes and on the one that
comes next, and on nothing after that. So two streams that part only after a lexeme (`Fork`) are
read the same by every parser that does not take this lexeme. The parsers that repeat something
get another bound on each side of the fork, since the bound is the number of lexemes left; a side
never runs out of it, and this is why two parsers are compared here (`Fork.LocalAt`).

* `Fork.LocalAt.bind`: a sequence of parsers;
* `Fork.local_expression`, `Fork.local_block`: expressions and blocks;
* `Fork.local_program`: whole programs.
-/

namespace Script

/-! ### Results and states -/

section Results

variable {ε σ α : Type}

/-- The state that a run ends in, with a result or an error. -/
def endState : EStateM.Result ε σ α → σ
  | .ok _ s => s
  | .error _ s => s

/-- The result or the error of a run, without the state. -/
def withoutState : EStateM.Result ε σ α → Except ε α
  | .ok a _ => .ok a
  | .error e _ => .error e

/-- A result or an error in a state. -/
def inState (s : σ) : Except ε α → EStateM.Result ε σ α
  | .ok a => .ok a s
  | .error e => .error e s

@[simp] theorem endState_inState (s : σ) (x : Except ε α) : endState (inState s x) = s := by
  cases x <;> rfl

@[simp] theorem withoutState_inState (s : σ) (x : Except ε α) : withoutState (inState s x) = x := by
  cases x <;> rfl

@[simp] theorem inState_endState (r : EStateM.Result ε σ α) :
    inState (endState r) (withoutState r) = r := by
  cases r <;> rfl

end Results

theorem Program.parse_eq_withoutState (text : String) :
    parse text = withoutState (ofStream maxNesting (.ofText text)) := by
  rw [parse]
  cases ofStream maxNesting (.ofText text) <;> rfl

/-! ### Forks -/

/-- **Two ways for a stream to go on** after a last lexeme that both have. -/
structure Fork where
  last : Lexeme
  rest : List Lexeme
  rest' : List Lexeme

namespace Fork

variable {k : Fork} {s t : ParserState} {α β : Type}

/-- Two states on the two sides of a fork. Neither has taken the last lexeme in common. -/
structure Sides (k : Fork) (s t : ParserState) : Prop where
  exists_eq : ∃ l, s.lexemes = l ++ k.last :: k.rest ∧ t.lexemes = l ++ k.last :: k.rest' ∧
    ∀ x ∈ l ++ [k.last], x.token ≠ .eof
  lastStop_eq : t.lastStop = s.lastStop

namespace Sides

theorem exists_cons (h : k.Sides s t) :
    ∃ x l l', s.lexemes = x :: l ∧ t.lexemes = x :: l' ∧ x.token ≠ .eof := by
  obtain ⟨l, hs, ht, hproper⟩ := h.exists_eq
  cases l with
  | nil => exact ⟨k.last, _, _, hs, ht, hproper _ (by simp)⟩
  | cons x l => exact ⟨x, _, _, hs, ht, hproper x (by simp)⟩

/-- On both sides the same lexeme comes next, and it is not the end of the text. -/
theorem exists_lookahead (h : k.Sides s t) :
    ∃ x, s.lookahead? = some x ∧ t.lookahead? = some x ∧ x.token ≠ .eof := by
  obtain ⟨x, l, l', hs, ht, hx⟩ := h.exists_cons
  exact ⟨x, by rw [ParserState.lookahead?, hs], by rw [ParserState.lookahead?, ht], hx⟩

theorem lookahead_eq (h : k.Sides s t) : t.lookahead? = s.lookahead? := by
  obtain ⟨x, hs, ht, -⟩ := h.exists_lookahead
  rw [hs, ht]

theorem length_eq (h : k.Sides s t) :
    s.lexemes.length + k.rest'.length = t.lexemes.length + k.rest.length := by
  obtain ⟨l, hs, ht, -⟩ := h.exists_eq
  simp only [hs, ht, List.length_append, List.length_cons]
  omega

theorem advance (h : k.Sides s t) (hlast : k.rest.length < s.advance.lexemes.length) :
    k.Sides s.advance t.advance := by
  obtain ⟨⟨l, hs, ht, hproper⟩, hstop⟩ := h
  unfold ParserState.advance at hlast ⊢
  cases l with
  | nil =>
    -- the last lexeme in common would be taken
    rw [hs] at hlast
    exact absurd hlast (Nat.lt_irrefl _)
  | cons x l =>
    rw [hs, ht]
    exact ⟨⟨l, rfl, rfl, fun y hy => hproper y (List.mem_cons_of_mem _ hy)⟩, rfl⟩

theorem not_of_nil (hs : s.lexemes = []) (t : ParserState) : ¬ k.Sides s t := by
  intro h
  obtain ⟨x, l, -, hcons, -⟩ := h.exists_cons
  rw [hs] at hcons
  cases hcons

theorem not_of_length_le_zero (hs : s.lexemes.length ≤ 0) : ∀ t, ¬ k.Sides s t :=
  not_of_nil (List.eq_nil_of_length_eq_zero (Nat.le_zero.1 hs))

theorem not_of_none (hs : s.lookahead? = none) (t : ParserState) : ¬ k.Sides s t := by
  intro h
  obtain ⟨x, hx, -⟩ := h.exists_lookahead
  rw [hs] at hx
  cases hx

end Sides

/-- As many lexemes as this are enough for the other side of the fork. -/
def Enough (k : Fork) (m : Nat) (s : ParserState) : Prop :=
  s.lexemes.length + k.rest'.length ≤ m + k.rest.length

namespace Enough

variable {m : Nat} {s' : ParserState}

theorem succ (h : k.Enough m s) : k.Enough (m + 1) s := by
  unfold Enough at h ⊢
  omega

/-- One less is enough after a lexeme is taken. -/
theorem after (h : k.Enough (m + 1) s) (hlt : s'.lexemes.length < s.lexemes.length) :
    k.Enough m s' := by
  unfold Enough at h ⊢
  omega

end Enough

/-- **A parser takes lexemes from a state**, and as long as the last one in common is not among
them, another parser does the same on the other side of the fork. -/
structure LocalAt (k : Fork) (p q : Parse α) (s : ParserState) : Prop where
  consumes : ∃ l, Consumes s l (endState (p s))
  same : ∀ t, k.Sides s t → k.rest.length < (endState (p s)).lexemes.length →
    ∃ t', k.Sides (endState (p s)) t' ∧ q t = inState t' (withoutState (p s))

/-- A parser is the same on both sides of a fork, wherever it starts. -/
def Local (k : Fork) (p : Parse α) : Prop :=
  ∀ s, k.LocalAt p p s

namespace LocalAt

variable {p q : Parse α} {f g : α → Parse β}

theorem length_le (h : k.LocalAt p q s) : (endState (p s)).lexemes.length ≤ s.lexemes.length :=
  h.consumes.elim fun _ hl => hl.length_le

/-- **A sequence of parsers** that are the same each. -/
theorem bind (h : k.LocalAt p q s)
    (hf : ∀ a s', p s = .ok a s' → s'.lexemes.length ≤ s.lexemes.length →
      k.LocalAt (f a) (g a) s') :
    k.LocalAt (p >>= f) (q >>= g) s := by
  have hle := h.length_le
  obtain ⟨⟨l, hl⟩, hsame⟩ := h
  cases hp : p s with
  | error e s' =>
    rw [hp] at hl hsame
    refine ⟨⟨l, by rw [bind_error hp]; exact hl⟩, fun t ht hlast => ?_⟩
    rw [bind_error hp] at hlast ⊢
    obtain ⟨t', hsides, hq⟩ := hsame t ht hlast
    exact ⟨t', hsides, bind_error hq⟩
  | ok a s' =>
    rw [hp] at hl hsame hle
    obtain ⟨⟨l', hl'⟩, hsame'⟩ := hf a s' hp hle
    refine ⟨⟨l ++ l', by rw [bind_ok hp]; exact hl.trans hl'⟩, fun t ht hlast => ?_⟩
    rw [bind_ok hp] at hlast ⊢
    obtain ⟨t₁, hsides, hq⟩ := hsame t ht (Nat.lt_of_lt_of_le hlast hl'.length_le)
    rw [bind_ok hq]
    exact hsame' t₁ hsides hlast

theorem stay {r : EStateM.Result ParseError ParserState α} (hp : p s = r) (hr : endState r = s)
    (hq : ∀ t, k.Sides s t → q t = inState t (withoutState r)) : k.LocalAt p q s := by
  refine ⟨⟨[], ?_⟩, fun t ht _ => ⟨t, ?_, ?_⟩⟩
  · rw [hp, hr]
    exact .refl s
  · rw [hp, hr]
    exact ht
  · rw [hp]
    exact hq t ht

theorem pure (a : α) : k.LocalAt (Pure.pure a) (Pure.pure a) s :=
  .stay rfl rfl fun _ _ => rfl

theorem throw (error : ParseError) :
    k.LocalAt (MonadExcept.throw error : Parse α) (MonadExcept.throw error) s :=
  .stay rfl rfl fun _ _ => rfl

/-- Where the sides cannot be, it does not matter what the other parser is. -/
theorem of_not_sides (h : k.LocalAt p p s) (hs : ∀ t, ¬ k.Sides s t) : k.LocalAt p q s :=
  ⟨h.consumes, fun t ht => absurd ht (hs t)⟩

/-- The text does not end too early on any side before the fork. -/
theorem failAtEnd (hs : ∀ t, ¬ k.Sides s t) : k.LocalAt (Parse.failAtEnd : Parse α) q s :=
  .stay rfl rfl fun t ht => absurd ht (hs t)

theorem failTooDeep : k.LocalAt (Parse.failTooDeep : Parse α) Parse.failTooDeep s := by
  refine .stay rfl rfl fun t ht => ?_
  have hdepth : t.depthError = s.depthError := by
    rw [ParserState.depthError, ht.lookahead_eq, ht.lastStop_eq]
    rfl
  show EStateM.Result.error t.depthError t = .error s.depthError t
  rw [hdepth]

/-! ### Looking at the state -/

theorem get_bind {f g : ParserState → Parse α} (hs : ∃ l, Consumes s l (endState (f s s)))
    (h : ∀ t, k.Sides s t → k.LocalAt (f s) (g t) s) : k.LocalAt (get >>= f) (get >>= g) s :=
  ⟨hs, fun t ht => (h t ht).same t ht⟩

/-- What both sides see alike may be looked at. -/
theorem get {f : ParserState → Parse α} (hsame : ∀ t, k.Sides s t → f t = f s)
    (h : k.LocalAt (f s) (f s) s) : k.LocalAt (get >>= f) (get >>= f) s :=
  .get_bind h.consumes fun t ht => by rw [hsame t ht]; exact h

/-- The number of lexemes left is not the same on both sides, but it is enough on both. -/
theorem get_length {f : Nat → Parse α}
    (h : ∀ m, k.Enough m s → k.LocalAt (f s.lexemes.length) (f m) s) :
    k.LocalAt (MonadState.get >>= fun s : ParserState => f s.lexemes.length)
      (MonadState.get >>= fun s : ParserState => f s.lexemes.length) s :=
  .get_bind (h (s.lexemes.length + k.rest'.length) (Nat.le_add_right _ _)).consumes
    fun _ ht => h _ (Nat.le_of_eq ht.length_eq)

/-- A bound that is enough is not zero before the fork. -/
theorem within {loop : Nat → Parse α}
    (h : ∀ m, k.Enough (m + 1) s → k.LocalAt p (loop (m + 1)) s) :
    ∀ m, k.Enough m s → k.LocalAt p (loop m) s
  | m + 1, hm => h m hm
  | 0, hm => by
    have hbig := h (s.lexemes.length + k.rest'.length) (by unfold Enough; omega)
    refine ⟨hbig.consumes, fun t ht => ?_⟩
    obtain ⟨x, l, l', hs, htl, -⟩ := ht.exists_cons
    have hlength := ht.length_eq
    unfold Enough at hm
    rw [htl, List.length_cons] at hlength
    omega

/-! ### Single lexemes -/

theorem advance : k.LocalAt Parse.advance Parse.advance s := by
  cases hs : s.lexemes with
  | nil =>
    have hstay : s.advance = s := by rw [ParserState.advance, hs]
    exact .stay (Parse.advance_apply s) hstay fun t ht => absurd ht (Sides.not_of_nil hs t)
  | cons x rest => exact ⟨⟨[x], .advance hs⟩, fun t ht hlast => ⟨t.advance, ht.advance hlast, rfl⟩⟩

/-- Taking the lexeme that comes next leaves one less. -/
theorem advance_bind {f g : Unit → Parse α} {x : Lexeme} {rest : List Lexeme}
    (hs : s.lexemes = x :: rest)
    (h : s.advance.lexemes.length < s.lexemes.length → k.LocalAt (f ()) (g ()) s.advance) :
    k.LocalAt (Parse.advance >>= f) (Parse.advance >>= g) s := by
  refine advance.bind ?_
  rintro _ _ ⟨⟩ -
  exact h ((Consumes.advance hs).length_lt (by simp))

/-- Choosing by the token that comes next. -/
theorem comes {token : Token} {f g : Bool → Parse α}
    (hyes : s.Comes token → k.LocalAt (f true) (g true) s)
    (hno : k.LocalAt (f false) (g false) s) :
    k.LocalAt (Parse.comes token >>= f) (Parse.comes token >>= g) s := by
  have hlocal : k.LocalAt (Parse.comes token) (Parse.comes token) s :=
    .stay (Parse.comes_apply token s) rfl fun t ht => by
      rw [Parse.comes_apply, ht.lookahead_eq]
      rfl
  refine hlocal.bind ?_
  rintro b _ ⟨⟩ -
  cases hcomes : s.lookahead?.map (·.token) == some token with
  | true => exact hyes hcomes
  | false => exact hno

end LocalAt

section Lexemes

open Parse

theorem local_expect (token : Token) : k.Local (expect token) := by
  intro s
  refine .get (fun t ht => ?_) ?_
  · obtain ⟨x, l, l', hs, ht, -⟩ := ht.exists_cons
    simp only [hs, ht]
  · split
    · next hs => exact .failAtEnd (Sides.not_of_nil hs)
    · split
      · exact LocalAt.advance.bind fun _ _ _ _ => .pure _
      · exact .throw _

theorem local_expectName : k.Local expectName := by
  intro s
  refine .get (fun t ht => ?_) ?_
  · obtain ⟨⟨token, span⟩, l, l', hs, ht, -⟩ := ht.exists_cons
    rw [hs, ht]
    cases token <;> rfl
  · split
    · next hs => exact .failAtEnd (Sides.not_of_nil hs)
    · exact LocalAt.advance.bind fun _ _ _ _ => .pure _
    · exact .throw _

theorem local_skipSemicolonsWithin : ∀ n m s, s.lexemes.length ≤ n → k.Enough m s →
    k.LocalAt (skipSemicolonsWithin n) (skipSemicolonsWithin m) s
  | 0, m, s, hn, _ =>
    (LocalAt.pure ()).of_not_sides (Sides.not_of_length_le_zero hn)
  | n + 1, m, s, hn, hm => by
    refine .within (fun m hm => .comes (fun hcomes => ?_) (.pure ())) m hm
    obtain ⟨span, rest, hs⟩ := exists_cons_of_lookahead (by simp) hcomes
    exact .advance_bind hs fun hlt =>
      local_skipSemicolonsWithin n m _ (by omega) (hm.after hlt)

theorem local_skipSemicolons : k.Local skipSemicolons :=
  fun s => .get_length fun m hm => local_skipSemicolonsWithin _ m s (Nat.le_refl _) hm

/-! ### Lists -/

variable {item : Parse α} (hitem : k.Local item)
include hitem

theorem local_afterCommasWithin : ∀ n m s, s.lexemes.length ≤ n → k.Enough m s →
    k.LocalAt (afterCommasWithin item n) (afterCommasWithin item m) s
  | 0, m, s, hn, _ =>
    (LocalAt.pure []).of_not_sides (Sides.not_of_length_le_zero hn)
  | n + 1, m, s, hn, hm => by
    refine .within (fun m hm => .comes (fun hcomes => ?_) (.pure [])) m hm
    obtain ⟨span, rest, hs⟩ := exists_cons_of_lookahead (by simp) hcomes
    refine .advance_bind hs fun hlt => (hitem _).bind fun x s' _ hle => ?_
    exact (local_afterCommasWithin n m s' (by omega) (hm.after (by omega))).bind
      fun _ _ _ _ => .pure _

theorem local_list (closing : Symbol) : k.Local (list item closing) := by
  intro s
  refine .comes (fun _ => ?_) ?_
  · exact (local_expect _ s).bind fun _ _ _ _ => .pure _
  · refine (hitem s).bind fun x s₁ _ _ => ?_
    have hafter : k.LocalAt (afterCommas item) (afterCommas item) s₁ :=
      .get_length fun m hm => local_afterCommasWithin hitem _ m s₁ (Nat.le_refl _) hm
    exact hafter.bind fun xs s₂ _ _ => (local_expect _ s₂).bind fun _ _ _ _ => .pure _

end Lexemes

/-! ### Pieces of expressions -/

section Pieces

open Parse

variable {expression : Precedence → Parse Expr} {block : Parse Block}
  (hexp : ∀ place, k.Local (expression place)) (hblock : k.Local block)

include hexp in
theorem local_pair : k.Local (pair (expression .lowest)) := fun s =>
  (hexp _ s).bind fun _ s₁ _ _ => (local_expect _ s₁).bind fun _ s₂ _ _ =>
    (hexp _ s₂).bind fun _ _ _ _ => .pure _

include hexp in
theorem local_unary (op : UnaryOp) (start : UInt32) :
    k.Local (unary expression op start) := fun s =>
  (hexp _ s).bind fun _ _ _ _ => .pure _

include hblock in
theorem local_function (start : UInt32) : k.Local (function block start) := fun s =>
  (local_expect _ s).bind fun _ s₁ _ _ => (local_list local_expectName _ s₁).bind fun _ s₂ _ _ =>
    (hblock s₂).bind fun _ _ _ _ => .pure _

include hexp hblock in
theorem local_primaryAt (lexeme : Lexeme) : k.Local (primaryAt expression block lexeme) := by
  intro s
  obtain ⟨token, span⟩ := lexeme
  -- nothing is asked for behind a literal or a name
  have hatom (e : Expr) : k.LocalAt (advance >>= fun _ => Pure.pure e)
      (advance >>= fun _ => Pure.pure e) s :=
    LocalAt.advance.bind fun _ _ _ _ => .pure e
  unfold primaryAt
  dsimp only
  cases token with
  | name text => exact hatom _
  | integer value => exact hatom _
  | string value => exact hatom _
  | comment => exact .throw _
  | eof => exact .throw _
  | keyword word =>
    cases word with
    | trueWord => exact hatom _
    | falseWord => exact hatom _
    | functionWord => exact LocalAt.advance.bind fun _ s₁ _ _ => local_function hblock _ s₁
    | _ => exact .throw _
  | symbol sign =>
    cases sign with
    | leftParen =>
      exact LocalAt.advance.bind fun _ s₁ _ _ => (hexp _ s₁).bind fun _ s₂ _ _ =>
        (local_expect _ s₂).bind fun _ _ _ _ => .pure _
    | leftBracket =>
      exact LocalAt.advance.bind fun _ s₁ _ _ =>
        (local_list (hexp _) _ s₁).bind fun _ _ _ _ => .pure _
    | leftBrace =>
      exact LocalAt.advance.bind fun _ s₁ _ _ =>
        (local_list (local_pair hexp) _ s₁).bind fun _ _ _ _ => .pure _
    | plus => exact LocalAt.advance.bind fun _ s₁ _ _ => local_unary hexp _ _ s₁
    | minus => exact LocalAt.advance.bind fun _ s₁ _ _ => local_unary hexp _ _ s₁
    | bang => exact LocalAt.advance.bind fun _ s₁ _ _ => local_unary hexp _ _ s₁
    | _ => exact .throw _

include hexp hblock in
theorem local_primary : k.Local (primary expression block) := by
  intro s
  refine .get (fun t ht => ?_) ?_
  · obtain ⟨x, l, l', hs, ht, -⟩ := ht.exists_cons
    rw [hs, ht]
  · split
    · next hs => exact .failAtEnd (Sides.not_of_nil hs)
    · exact local_primaryAt hexp hblock _ s

include hexp in
theorem local_wrap (left : Expr) (op : Operator) : k.Local (wrap expression left op) := by
  intro s
  refine LocalAt.advance.bind fun _ s₁ _ _ => ?_
  cases op with
  | binary op => exact (hexp _ s₁).bind fun _ _ _ _ => .pure _
  | assign => exact (hexp _ s₁).bind fun _ _ _ _ => .pure _
  | call => exact (local_list (hexp _) _ s₁).bind fun _ _ _ _ => .pure _
  | index =>
    exact (hexp _ s₁).bind fun _ s₂ _ _ => (local_expect _ s₂).bind fun _ _ _ _ => .pure _

end Pieces

/-! ### Pieces of nodes -/

section Nodes

open Parse

variable {expression : Parse Expr} {block : Parse Block} (hexp : k.Local expression)
  (hblock : k.Local block)

include hexp in
theorem local_binding : k.Local (binding expression) := fun s =>
  (local_expect _ s).bind fun _ s₁ _ _ => (local_expectName s₁).bind fun _ s₂ _ _ =>
    (local_expect _ s₂).bind fun _ s₃ _ _ => (hexp s₃).bind fun _ _ _ _ => .pure _

include hexp in
theorem local_returning : k.Local (returning expression) := by
  refine fun s => (local_expect _ s).bind fun _ s₁ _ _ => .get (fun t ht => ?_) ?_
  · rw [ht.lookahead_eq]
  · split
    · exact .pure _
    · exact (hexp s₁).bind fun _ _ _ _ => .pure _

include hexp hblock in
theorem local_conditionalWithin : ∀ n m s, s.lexemes.length ≤ n → k.Enough m s →
    k.LocalAt (conditionalWithin expression block n) (conditionalWithin expression block m) s
  | 0, m, s, hn, _ =>
    .failAtEnd (Sides.not_of_length_le_zero hn)
  | n + 1, m, s, hn, hm => by
    refine .within (fun m hm => ?_) m hm
    refine (local_expect _ s).bind fun opening s₁ hopening _ => (hexp s₁).bind fun _ s₂ _ h₂ =>
      (hblock s₂).bind fun consequence s₃ _ h₃ => ?_
    refine .comes (fun _ => LocalAt.advance.bind fun _ s₄ _ h₄ => ?_) (.pure _)
    refine .comes (fun _ => ?_) ((hblock s₄).bind fun _ _ _ _ => .pure _)
    -- the keyword at the front has been taken, so the bounds are enough for the next `if`
    have h₁ := (consumes_of_expect hopening).length_lt (by simp)
    refine LocalAt.bind ?_ fun _ _ _ _ => .pure _
    exact local_conditionalWithin n m s₄ (by omega) (hm.after (by omega))

include hexp hblock in
theorem local_node : k.Local (node expression block) := by
  intro s
  refine .get (fun t ht => ?_) ?_
  · rw [ht.lookahead_eq]
  · split
    · exact local_binding hexp s
    · exact local_returning hexp s
    · exact .get_length fun m hm => local_conditionalWithin hexp hblock _ m s (Nat.le_refl _) hm
    · rw [map_eq_pure_bind]
      exact (hexp s).bind fun _ _ _ _ => .pure _
    · next hnone => exact .failAtEnd (Sides.not_of_none hnone)

theorem local_terminator (node : Node) (closing : Token) : k.Local (terminator node closing) := by
  intro s
  refine .get (fun t ht => ?_) ?_
  · rw [ht.lookahead_eq]
  · split
    · next token span hlook =>
      split
      · exact .advance
      · split
        · exact .pure ()
        · split
          · -- the end of the text is no lexeme of the stream
            next heof =>
            refine .failAtEnd fun t ht => ?_
            obtain ⟨x, hx, -, hproper⟩ := ht.exists_lookahead
            rw [hlook] at hx
            cases hx
            exact hproper heof
          · exact .get (fun t ht => by rw [ht.lastStop_eq]) (.throw _)
    · next hnone =>
      split
      · exact .pure ()
      · exact .failAtEnd (Sides.not_of_none hnone)

end Nodes

/-! ### Blocks -/

section Blocks

open Parse

variable {node : Parse Node} (hnode : k.Local node)
  (hprogress : ∀ s x s', node s = .ok x s' → s'.lexemes.length < s.lexemes.length)
include hnode hprogress

theorem local_nodesWithin : ∀ n m s, s.lexemes.length ≤ n → k.Enough m s →
    k.LocalAt (nodesWithin node n) (nodesWithin node m) s
  | 0, m, s, hn, _ =>
    .failAtEnd (Sides.not_of_length_le_zero hn)
  | n + 1, m, s, hn, hm => by
    refine .within (fun m hm => (local_skipSemicolons s).bind fun _ s₁ _ h₁ =>
      .comes (fun _ => ?_) ?_) m hm
    · exact (local_expect _ s₁).bind fun _ _ _ _ => .pure _
    · refine (hnode s₁).bind fun x s₂ hx _ => (local_terminator _ _ s₂).bind fun _ s₃ _ h₃ => ?_
      have h₂ := hprogress _ _ _ hx
      exact (local_nodesWithin n m s₃ (by omega) (hm.after (by omega))).bind
        fun _ _ _ _ => .pure _

theorem local_braced : k.Local (braced node) := by
  refine fun s => (local_expect _ s).bind fun opening s₁ _ _ => .get_length
    (f := fun n => nodesWithin node (n + 1) >>= fun r =>
      Pure.pure (⟨r.1, opening.start, r.2⟩ : Block)) fun m hm => ?_
  exact (local_nodesWithin hnode hprogress _ (m + 1) s₁ (Nat.le_succ _) hm.succ).bind
    fun _ _ _ _ => .pure _

end Blocks

/-! ### Expressions and blocks -/

section Levels

open Parse

theorem length_lt_of_node {levels : Nat} {s s' : ParserState} {x : Node}
    (h : node (expression levels .lowest) (block levels) s = .ok x s') :
    s'.lexemes.length < s.lexemes.length := by
  obtain ⟨l, hl, hD⟩ :=
    reads_node (reads_lowest (reads_expression levels)) (reads_block levels) _ _ _ h
  obtain ⟨x, rest, rfl, -⟩ := hD.begins.exists_cons rfl
  exact hl.length_lt (by simp)

mutual

theorem local_expression : ∀ levels place, k.Local (expression levels place)
  | 0, _ => fun _ => .failTooDeep
  | levels + 1, place => fun s =>
    (local_primary (local_expression levels) (local_block levels) s).bind fun left s₁ _ _ =>
      local_operators levels place left s₁
termination_by structural levels => levels

theorem local_operators : ∀ levels place left, k.Local (operators levels place left)
  | 0, place, left => fun s => by
    refine .get (fun t ht => ?_) ?_
    · rw [ParserState.operator?, ht.lookahead_eq, ParserState.operator?]
    · split
      · split
        · exact .failTooDeep
        · exact .pure _
      · exact .pure _
  | levels + 1, place, left => fun s => by
    refine .get (fun t ht => ?_) ?_
    · rw [ParserState.operator?, ht.lookahead_eq, ParserState.operator?]
    · split
      · next op _ =>
        split
        · exact (local_wrap (local_expression levels) left op s).bind fun e s₁ _ _ =>
            local_operators levels place e s₁
        · exact .pure _
      · exact .pure _
termination_by structural levels => levels

theorem local_block : ∀ levels s, k.LocalAt (block levels) (block levels) s
  | 0, _ => .failTooDeep
  | levels + 1, s =>
    local_braced (local_node (local_expression levels .lowest) (local_block levels))
      (fun _ _ _ => length_lt_of_node) s
termination_by structural levels => levels

end

end Levels

/-! ### Programs -/

section Programs

open Parse

variable (levels : Nat)

theorem local_nextNode : k.Local (nextNode levels) := by
  refine fun s => (local_skipSemicolons s).bind fun _ s₁ _ _ => .get (fun t ht => ?_) ?_
  · rw [ht.lookahead_eq]
  · split
    · exact .pure _
    · next hnone => exact .failAtEnd (Sides.not_of_none hnone)
    · exact (local_node (local_expression levels .lowest) (local_block levels) s₁).bind
        fun x s₂ _ _ => (local_terminator x _ s₂).bind fun _ _ _ _ => .pure _

theorem local_programWithin : ∀ n m s, s.lexemes.length ≤ n → k.Enough m s →
    k.LocalAt (programWithin levels n) (programWithin levels m) s
  | 0, m, s, hn, _ =>
    (LocalAt.pure []).of_not_sides (Sides.not_of_length_le_zero hn)
  | n + 1, m, s, hn, hm => by
    refine .within (fun m hm => (local_nextNode levels s).bind fun next s₁ hnext _ => ?_) m hm
    cases next with
    | none => exact .pure _
    | some x =>
      have hlt := length_lt_of_nextNode hnext
      exact (local_programWithin n m s₁ (by omega) (hm.after (by omega))).bind
        fun _ _ _ _ => .pure _

theorem local_program : k.Local (program levels) := by
  intro s
  refine .get (fun t ht => by rw [ht.lookahead_eq]) ?_
  generalize (s.lookahead?.map (·.span.start)).getD 0 = start
  refine .get_length (f := fun n => programWithin levels (n + 1) >>= fun nodes =>
    MonadState.get >>= fun s : ParserState =>
      Pure.pure (⟨nodes, start, max s.lastStop start⟩ : Program)) fun m hm => ?_
  refine (local_programWithin levels _ (m + 1) s (Nat.le_succ _) hm.succ).bind
    fun nodes s₁ _ _ => .get (fun t ht => by rw [ht.lastStop_eq]) (.pure _)

end Programs

end Fork

/-! ### Streams -/

/-- A program is read by taking lexemes. -/
theorem Parse.exists_consumes_program (levels : Nat) (s : ParserState) :
    ∃ l, Consumes s l (endState (program levels s)) :=
  (Fork.local_program (k := ⟨⟨.eof, .point 0⟩, [], []⟩) levels s).consumes

/-- A program is complete only where the end of the text comes next. -/
theorem Parse.comes_eof_of_program {levels : Nat} {s s' : ParserState} {p : Program}
    (h : program levels s = .ok p s') : s'.Comes .eof := by
  rw [program, get_bind] at h
  obtain ⟨_, _, hget, h⟩ := bind_eq_ok_iff.1 h
  cases hget
  obtain ⟨ns, s₁, hns, h⟩ := bind_eq_ok_iff.1 h
  cases h
  obtain ⟨l, -, -, hend⟩ := reads_programWithin levels _ (by simp) hns
  exact hend

theorem Ending.reading_inj {e e' : Ending} (h : e.reading = e'.reading) : e = e' := by
  cases e <;> cases e' <;> cases h <;> rfl

theorem token_upcoming_nil {x : Lexeme} {ending : Ending} (h : upcoming [] ending = .ok x) :
    x.token = .eof := by
  cases ending <;> cases h
  rfl

/-- A program is read alike from all streams that begin alike, with the lexemes that are taken
and the reading that comes next. -/
theorem Program.ofStream_of_startsWith {levels : Nat} {stream stream' : LexemeStream}
    {l : List Lexeme} {reading : Reading} (hstream : ∀ x ∈ stream.lexemes, x.token ≠ .eof)
    (hstream' : ∀ x ∈ stream'.lexemes, x.token ≠ .eof)
    (htakes : Consumes (.ofStream stream) l (endState (ofStream levels stream)))
    (hstarts : stream.StartsWith l reading) (hstarts' : stream'.StartsWith l reading) :
    ∃ s, ofStream levels stream' = inState s (withoutState (ofStream levels stream)) ∧
      Consumes (.ofStream stream') l s := by
  obtain ⟨more, hlexemes, hnext⟩ := hstarts
  obtain ⟨more', hlexemes', hnext'⟩ := hstarts'
  have hleft : (endState (ofStream levels stream)).lexemes = more :=
    List.append_cancel_left (htakes.lexemes_eq.symm.trans hlexemes)
  have hmem' {x : Lexeme} (h : x ∈ more') : x.token ≠ .eof :=
    hstream' x (by rw [hlexemes']; exact List.mem_append_right l h)
  cases more with
  | nil =>
    -- nothing is left, so the two streams are the same
    have hmore' : more' = [] := by
      cases more' with
      | nil => rfl
      | cons x rest => exact absurd (token_upcoming_nil (hnext.trans hnext'.symm)) (hmem' (by simp))
    subst hmore'
    have hsame : ParserState.ofStream stream' = .ofStream stream := by
      rw [ParserState.ofStream, hlexemes', ParserState.ofStream, hlexemes,
        Ending.reading_inj (hnext'.trans hnext.symm)]
    refine ⟨endState (ofStream levels stream), ?_, by rw [hsame]; exact htakes⟩
    rw [ofStream, hsame, ← ofStream, inState_endState]
  | cons x rest =>
    have hx : x.token ≠ .eof := hstream x (by rw [hlexemes]; simp)
    obtain ⟨rest', rfl⟩ : ∃ rest', more' = x :: rest' := by
      cases more' with
      | nil => exact absurd (token_upcoming_nil (hnext'.trans hnext.symm)) hx
      | cons y rest' =>
        obtain rfl : y = x := Except.ok.inj (hnext'.trans hnext.symm)
        exact ⟨rest', rfl⟩
    have hsides : (⟨x, rest, rest'⟩ : Fork).Sides (.ofStream stream) (.ofStream stream') :=
      ⟨⟨l, hlexemes, hlexemes', fun y hy => hstream y (by
        rw [hlexemes, List.append_cons]
        exact List.mem_append_left rest hy)⟩, rfl⟩
    have hlast : rest.length < (endState (ofStream levels stream)).lexemes.length := by
      rw [hleft]
      exact Nat.lt_succ_self _
    have hlocal := Fork.local_program (k := ⟨x, rest, rest'⟩) levels
    obtain ⟨t, ht, hresult⟩ := (hlocal _).same _ hsides hlast
    obtain ⟨l', htakes'⟩ := (hlocal (.ofStream stream')).consumes
    rw [hresult, endState_inState] at htakes'
    -- what is left tells what has been taken
    obtain ⟨⟨l₀, hl₀, hl₀', -⟩, -⟩ := ht
    obtain rfl : l₀ = [] := List.self_eq_append_left.1 (hleft.symm.trans hl₀)
    obtain rfl : l' = l :=
      List.append_cancel_right ((htakes'.lexemes_eq.symm.trans hlexemes').trans (by rw [hl₀']; rfl))
    exact ⟨t, hresult, htakes'⟩

end Script
