import Script.Proofs.Parser.Completeness
import Script.Proofs.Parser.Locality

/-!
# Repetition without bounds

The parsers that repeat something are bounded by the number of lexemes left. Since each round takes
a lexeme, any bound from this number on is enough, and so the parsers do what they would do without
any bound: one round, and then the same again.

* `Takes`: a parser takes lexemes, and changes nothing else;
* `afterCommas_of_comes`, `conditional_apply`, `nodes_apply`, `programNodes_apply`: one round.
-/

namespace Script.Parse

variable {α : Type} {s s' : ParserState}

/-! ### Taking lexemes -/

/-- A parser takes lexemes, and changes nothing else, whether it fails or not. -/
def Takes (p : Parse α) : Prop :=
  ∀ s, ∃ l, Consumes s l (endState (p s))

/-- What is the same on both sides of a fork takes lexemes. -/
theorem takes_of_local {p : Parse α} (h : ∀ k : Fork, k.Local p) : Takes p :=
  fun s => (h ⟨⟨.eof, .point 0⟩, [], []⟩ s).consumes

theorem Takes.consumes {p : Parse α} {a : α} (hp : Takes p) (h : p s = .ok a s') :
    ∃ l, Consumes s l s' := by
  have hl := hp s
  rw [h] at hl
  exact hl

theorem Takes.length_le {p : Parse α} {a : α} (hp : Takes p) (h : p s = .ok a s') :
    s'.lexemes.length ≤ s.lexemes.length :=
  (hp.consumes h).elim fun _ hl => hl.length_le

theorem Takes.bind {β : Type} {p : Parse α} {f : α → Parse β} (hp : Takes p)
    (hf : ∀ a, Takes (f a)) : Takes (p >>= f) := by
  intro s
  obtain ⟨l, hl⟩ := hp s
  cases ha : p s with
  | ok a s₁ =>
    rw [ha] at hl
    obtain ⟨l', hl'⟩ := hf a s₁
    rw [bind_ok ha]
    exact ⟨l ++ l', hl.trans hl'⟩
  | error error s₁ =>
    rw [ha] at hl
    rw [bind_error ha]
    exact ⟨l, hl⟩

theorem takes_pair {expression : Parse Expr} (hexp : Takes expression) :
    Takes (pair expression) :=
  hexp.bind fun _ => (takes_of_local fun _ => Fork.local_expect _).bind fun _ => hexp.bind
    fun _ s => ⟨[], .refl s⟩

theorem takes_expectName : Takes expectName :=
  takes_of_local fun _ => Fork.local_expectName

theorem takes_expression (levels : Nat) (place : Precedence) : Takes (expression levels place) :=
  takes_of_local fun _ => Fork.local_expression levels place

theorem takes_block (levels : Nat) : Takes (block levels) :=
  takes_of_local fun _ => Fork.local_block levels

theorem takes_terminator (x : Node) (closing : Token) : Takes (terminator x closing) :=
  takes_of_local fun _ => Fork.local_terminator x closing

/-- An operator is taken with what it makes of the expression in front of it. -/
theorem length_lt_of_wrap {levels : Nat} {left e : Expr} {op : Operator}
    (hop : s.operator? = some op) (h : wrap (expression levels) left op s = .ok e s') :
    s'.lexemes.length < s.lexemes.length := by
  obtain ⟨span, rest, hs⟩ := ParserState.exists_cons_of_operator? hop
  have hexp := takes_expression levels
  have hlist : Takes (list (expression levels .lowest) .rightParen) :=
    takes_of_local fun _ => Fork.local_list (Fork.local_expression levels .lowest) _
  have hpure (e : Expr) : Takes (pure e) := fun s => ⟨[], .refl s⟩
  unfold wrap at h
  rw [bind_ok (advance_apply s)] at h
  refine Nat.lt_of_le_of_lt ?_ ((Consumes.advance hs).length_lt (by simp))
  cases op with
  | call => exact (hlist.bind fun _ => hpure _).length_le h
  | index =>
    have hclose : Takes (expect (.symbol .rightBracket)) :=
      takes_of_local fun _ => Fork.local_expect _
    exact ((hexp _).bind fun _ => hclose.bind fun _ => hpure _).length_le h
  | assign => exact ((hexp _).bind fun _ => hpure _).length_le h
  | binary op => exact ((hexp _).bind fun _ => hpure _).length_le h

/-- Where a token comes next that is not the end of the text, taking it leaves less. -/
theorem length_advance_lt {token : Token} (hne : token ≠ .eof) (h : s.Comes token) :
    s.advance.lexemes.length < s.lexemes.length := by
  obtain ⟨span, rest, hs⟩ := exists_cons_of_lookahead hne h
  exact (Consumes.advance hs).length_lt (by simp)

theorem not_comes_of_nil {token : Token} (hne : token ≠ .eof) (hs : s.lexemes = []) :
    ¬ s.Comes token := by
  intro h
  obtain ⟨span, rest, hcons⟩ := exists_cons_of_lookahead hne h
  rw [hs] at hcons
  cases hcons

theorem expect_of_nil (token : Token) (hs : s.lexemes = []) :
    expect token s = .error s.endError s := by
  rw [expect, get_bind, hs]
  rfl

/-! ### Items after commas -/

section Lists

variable {item : Parse α} (hitem : Takes item)

theorem afterCommasWithin_of_comes (n : Nat) (h : s.Comes (.symbol .comma)) :
    afterCommasWithin item (n + 1) s =
      (item >>= fun x => afterCommasWithin item n >>= fun xs => pure (x :: xs)) s.advance := by
  rw [afterCommasWithin, bind_ok (comes_of_comes h)]
  rfl

theorem afterCommas_of_not_comes (h : ¬ s.Comes (.symbol .comma)) :
    afterCommas item s = .ok [] s :=
  (gives_afterCommas_nil s.lexemes.length h).ok

include hitem

theorem afterCommasWithin_eq : ∀ n m s, s.lexemes.length ≤ n → s.lexemes.length ≤ m →
    afterCommasWithin item n s = afterCommasWithin item m s := by
  intro n
  induction n with
  | zero =>
    intro m s hn hm
    have hnot : ¬ s.Comes (.symbol .comma) :=
      not_comes_of_nil (by simp) (List.eq_nil_of_length_eq_zero (Nat.le_zero.1 hn))
    rw [(gives_afterCommas_nil 0 hnot).ok, (gives_afterCommas_nil m hnot).ok]
  | succ n ih =>
    intro m s hn hm
    by_cases hcomes : s.Comes (.symbol .comma)
    · have hlt := length_advance_lt (by simp) hcomes
      obtain ⟨m, rfl⟩ : ∃ m', m = m' + 1 := ⟨m - 1, by omega⟩
      rw [afterCommasWithin_of_comes n hcomes, afterCommasWithin_of_comes m hcomes]
      refine bind_congr_right fun x s' hx => bind_congr_left (ih m s' ?_ ?_) <;>
      · have hle := hitem.length_le hx
        omega
    · rw [(gives_afterCommas_nil _ hcomes).ok, (gives_afterCommas_nil m hcomes).ok]

/-- **After a comma** there is one item more. -/
theorem afterCommas_of_comes (h : s.Comes (.symbol .comma)) :
    afterCommas item s =
      (item >>= fun x => afterCommas item >>= fun xs => pure (x :: xs)) s.advance := by
  have hlt := length_advance_lt (by simp) h
  obtain ⟨n, hn⟩ : ∃ n, s.lexemes.length = n + 1 := ⟨s.lexemes.length - 1, by omega⟩
  rw [afterCommas, get_bind, hn, afterCommasWithin_of_comes n h]
  refine bind_congr_right fun x s' hx => bind_congr_left ?_
  have hle := hitem.length_le hx
  exact afterCommasWithin_eq hitem _ _ s' (by omega) (Nat.le_refl _)

end Lists

/-! ### Conditionals -/

section Conditionals

variable {expression : Parse Expr} {block : Parse Block}

/-- What stands after `else`, without any bound. -/
def alternative (expression : Parse Expr) (block : Parse Block) : Parse Block := do
  if ← comes (.keyword .ifWord) then
    let inner ← conditional expression block
    return ⟨[inner], inner.span⟩
  else
    block

/-- What stands after the two parts of an `if` that it always has. -/
def afterConsequence (alternative : Parse Block) (start : UInt32) (condition : Expr)
    (consequence : Block) : Parse Node := do
  if ← comes (.keyword .elseWord) then
    advance
    let alternative ← alternative
    return .conditional condition consequence (some alternative) ⟨start, alternative.span.stop⟩
  else
    return .conditional condition consequence none ⟨start, consequence.span.stop⟩

theorem conditionalWithin_succ_apply (n : Nat) (s : ParserState) :
    conditionalWithin expression block (n + 1) s =
      (expect (.keyword .ifWord) >>= fun opening => expression >>= fun condition =>
        block >>= fun consequence => afterConsequence (alternativeWithin expression block n)
          opening.start condition consequence) s := by
  rw [conditionalWithin_succ]
  rfl

variable (hexp : Takes expression) (hblock : Takes block)
include hexp hblock

/-- After the keyword of an `if` less is left for those that follow it after `else`. -/
theorem conditionalWithin_congr {p q : Parse Block}
    (h : ∀ s', s'.lexemes.length < s.lexemes.length → p s' = q s') :
    (expect (.keyword .ifWord) >>= fun opening => expression >>= fun condition =>
      block >>= fun consequence => afterConsequence p opening.start condition consequence) s =
    (expect (.keyword .ifWord) >>= fun opening => expression >>= fun condition =>
      block >>= fun consequence => afterConsequence q opening.start condition consequence) s := by
  refine bind_congr_right fun opening s₁ hopening => bind_congr_right fun condition s₂ hcondition =>
    bind_congr_right fun consequence s₃ hconsequence => ?_
  have h₁ := (consumes_of_expect hopening).length_lt (by simp)
  have h₂ := hexp.length_le hcondition
  have h₃ := hblock.length_le hconsequence
  refine bind_congr_right ?_
  rintro comesElse _ ⟨⟩
  cases hcomes : s₃.lookahead?.map (·.token) == some (.keyword .elseWord) with
  | true =>
    have hlt := length_advance_lt (by simp) hcomes
    exact bind_congr_left (h s₃.advance (by omega))
  | false => rfl

theorem conditionalWithin_eq : ∀ n m s, s.lexemes.length ≤ n → s.lexemes.length ≤ m →
    conditionalWithin expression block n s = conditionalWithin expression block m s
  | 0, 0, _, _, _ => rfl
  | 0, m + 1, s, hn, _ => by
    have hs := List.eq_nil_of_length_eq_zero (Nat.le_zero.1 hn)
    rw [conditionalWithin_succ_apply, bind_error (expect_of_nil _ hs)]
    rfl
  | n + 1, 0, s, _, hm => by
    have hs := List.eq_nil_of_length_eq_zero (Nat.le_zero.1 hm)
    rw [conditionalWithin_succ_apply, bind_error (expect_of_nil _ hs)]
    rfl
  | n + 1, m + 1, s, hn, hm => by
    rw [conditionalWithin_succ_apply, conditionalWithin_succ_apply]
    refine conditionalWithin_congr hexp hblock fun s' hs' => bind_congr_right ?_
    rintro comesIf _ ⟨⟩
    split
    · exact bind_congr_left (conditionalWithin_eq n m s' (by omega) (by omega))
    · rfl

/-- **An `if`**, and after `else` another one or a block. -/
theorem conditional_apply (s : ParserState) :
    conditional expression block s =
      (expect (.keyword .ifWord) >>= fun opening => expression >>= fun condition =>
        block >>= fun consequence => afterConsequence (alternative expression block)
          opening.start condition consequence) s := by
  rw [conditional, get_bind]
  cases hlength : s.lexemes.length with
  | zero =>
    rw [bind_error (expect_of_nil _ (List.eq_nil_of_length_eq_zero hlength))]
    rfl
  | succ n =>
    rw [conditionalWithin_succ_apply]
    refine conditionalWithin_congr hexp hblock fun s' hs' => bind_congr_right ?_
    rintro comesIf _ ⟨⟩
    split
    · exact bind_congr_left (conditionalWithin_eq hexp hblock _ _ s' (by omega) (Nat.le_refl _))
    · rfl

end Conditionals

/-! ### Nodes -/

section Nodes

variable {node : Parse Node}

/-- The nodes up to the closing brace, without any bound. -/
def nodes (node : Parse Node) : Parse (List Node × UInt32) := do
  nodesWithin node ((← get).lexemes.length + 1)

/-- The round of a block after the semicolons, and the rounds after it. -/
def nodesBody (node : Parse Node) (rest : Parse (List Node × UInt32)) :
    Parse (List Node × UInt32) := do
  if ← comes (.symbol .rightBrace) then
    let close ← expect (.symbol .rightBrace)
    return ([], close.stop)
  else
    let x ← node
    terminator x (.symbol .rightBrace)
    let (xs, stop) ← rest
    return (x :: xs, stop)

/-- One round of a block, and the rounds after it. -/
def nodesRound (node : Parse Node) (rest : Parse (List Node × UInt32)) :
    Parse (List Node × UInt32) := do
  skipSemicolons
  nodesBody node rest

variable (hnode : ∀ s x s', node s = .ok x s' → s'.lexemes.length < s.lexemes.length)
include hnode

theorem nodesRound_congr {p q : Parse (List Node × UInt32)}
    (h : ∀ s', s'.lexemes.length < s.lexemes.length → p s' = q s') :
    nodesRound node p s = nodesRound node q s := by
  refine bind_congr_right fun _ s₁ hskip => bind_congr_right ?_
  rintro comesBrace _ ⟨⟩
  split
  · rfl
  · refine bind_congr_right fun x s₂ hx => bind_congr_right fun _ s₃ hterminator => ?_
    obtain ⟨l, hl, -⟩ := consumes_of_skipSemicolons hskip
    have h₁ := hl.length_le
    have h₂ := hnode _ _ _ hx
    have h₃ := (takes_terminator x _).length_le hterminator
    exact bind_congr_left (h s₃ (by omega))

theorem nodesWithin_eq : ∀ n m s, s.lexemes.length < n → s.lexemes.length < m →
    nodesWithin node n s = nodesWithin node m s
  | 0, _, _, hn, _ => by omega
  | _, 0, _, _, hm => by omega
  | n + 1, m + 1, s, hn, hm =>
    nodesRound_congr hnode fun s' hs' => nodesWithin_eq n m s' (by omega) (by omega)

/-- **The nodes of a block**, one after another. -/
theorem nodes_apply (s : ParserState) : nodes node s = nodesRound node (nodes node) s :=
  nodesRound_congr hnode fun s' hs' => nodesWithin_eq hnode _ _ s' hs' (Nat.lt_succ_self _)

end Nodes

/-! ### Programs -/

/-- The nodes of a program, without any bound. -/
def programNodes (levels : Nat) : Parse (List Node) := do
  programWithin levels ((← get).lexemes.length + 1)

/-- One round of a program, and the rounds after it. -/
def programRound (levels : Nat) (rest : Parse (List Node)) : Parse (List Node) := do
  match ← nextNode levels with
  | none => return []
  | some x =>
    let xs ← rest
    return x :: xs

theorem programRound_congr {levels : Nat} {p q : Parse (List Node)}
    (h : ∀ s', s'.lexemes.length < s.lexemes.length → p s' = q s') :
    programRound levels p s = programRound levels q s := by
  refine bind_congr_right fun next s' hnext => ?_
  cases next with
  | none => rfl
  | some x => exact bind_congr_left (h s' (length_lt_of_nextNode hnext))

theorem programWithin_eq (levels : Nat) : ∀ n m s, s.lexemes.length < n → s.lexemes.length < m →
    programWithin levels n s = programWithin levels m s
  | 0, _, _, hn, _ => by omega
  | _, 0, _, _, hm => by omega
  | n + 1, m + 1, s, hn, hm =>
    programRound_congr fun s' hs' => programWithin_eq levels n m s' (by omega) (by omega)

/-- **The nodes of a program**, one after another. -/
theorem programNodes_apply (levels : Nat) (s : ParserState) :
    programNodes levels s = programRound levels (programNodes levels) s :=
  programRound_congr fun s' hs' => programWithin_eq levels _ _ s' hs' (Nat.lt_succ_self _)

end Script.Parse
