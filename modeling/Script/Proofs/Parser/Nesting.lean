import Script.Proofs.Parser.Run
import Script.Proofs.Syntax.Path

/-!
# What the bound on nesting bounds

A parser that may use some number of levels gives trees of bounded height, but not of a height
within that number. What it counts are the levels in use at one time. The operators of an expression
use up a level each, but what stands before them has given its own levels back, and then goes deeper
into the tree with every operator after it. The block of an `else if` uses up none.

* `Counting.most`: the height that a number of levels allows;
* `yields_expression`, `yields_block`: expressions and blocks;
* `Program.height_le`: programs;
* `Program.path_length_le_iff`: which programs have no path longer than the bound.
-/

namespace Script

/-- The most that is counted on a path of an expression or a block within some levels. -/
def Counting.most (c : Counting) : Nat → Nat
  | 0 => 0
  | levels + 1 => c.most levels + c.operand * levels + 1

namespace Parse

variable {α β : Type}

/-- All that a parser gives has a property. -/
def Yields (P : α → Prop) (p : Parse α) : Prop :=
  ∀ s a s', p s = .ok a s' → P a

namespace Yields

variable {P : α → Prop} {Q : β → Prop} {p : Parse α} {f : α → Parse β}

theorem pure {a : α} (h : P a) : Yields P (Pure.pure a) := by
  rintro s _ s' ⟨⟩
  exact h

theorem any (p : Parse α) : Yields (fun _ => True) p :=
  fun _ _ _ _ => trivial

theorem bind (h : Yields P p) (hf : ∀ a, P a → Yields Q (f a)) : Yields Q (p >>= f) := by
  intro s b s' hb
  obtain ⟨a, s₁, ha, hb⟩ := bind_eq_ok_iff.1 hb
  exact hf a (h s a s₁ ha) s₁ b s' hb

/-- After a step whose result does not matter. -/
theorem after (hf : ∀ a, Yields Q (f a)) : Yields Q (p >>= f) :=
  (any p).bind fun a _ => hf a

theorem imp {P' : α → Prop} (h : Yields P p) (himp : ∀ a, P a → P' a) : Yields P' p :=
  fun s a s' ha => himp a (h s a s' ha)

theorem throw (error : ParseError) : Yields P (MonadExcept.throw error : Parse α) := by
  rintro s a s' ⟨⟩

theorem failAtEnd : Yields P (failAtEnd : Parse α) := by
  rintro s a s' ⟨⟩

theorem failTooDeep : Yields P (failTooDeep : Parse α) := by
  rintro s a s' ⟨⟩

end Yields

/-! ### Lists -/

section Lists

variable {P : α → Prop} {item : Parse α} (hitem : Yields P item)
include hitem

theorem yields_afterCommasWithin : ∀ n, Yields (fun xs => ∀ x ∈ xs, P x) (afterCommasWithin item n)
  | 0 => .pure (by simp)
  | n + 1 => by
    refine .after fun comma => ?_
    split
    · refine .after fun _ => hitem.bind fun x hx => ?_
      refine (yields_afterCommasWithin n).bind fun xs hxs => .pure ?_
      exact List.forall_mem_cons.2 ⟨hx, hxs⟩
    · exact .pure (by simp)

theorem yields_list (closing : Symbol) :
    Yields (fun r => ∀ x ∈ r.1, P x) (list item closing) := by
  refine .after fun closes => ?_
  split
  · exact .after fun _ => .pure (by simp)
  · refine hitem.bind fun x hx => ?_
    refine Yields.bind (.after fun _ => yields_afterCommasWithin hitem _) fun xs hxs => ?_
    exact .after fun _ => .pure (List.forall_mem_cons.2 ⟨hx, hxs⟩)

end Lists

/-! ### Pieces of expressions -/

section Pieces

variable {c : Counting} {n : Nat} {expression : Precedence → Parse Expr} {block : Parse Block}
  (hexp : ∀ place, Yields (fun e => 1 + e.height c ≤ n) (expression place))
  (hblock : Yields (fun b => 1 + b.height c ≤ n) block)

include hexp in
theorem yields_pair :
    Yields (fun kv => 1 + kv.1.height c ≤ n ∧ 1 + kv.2.height c ≤ n)
      (pair (expression .lowest)) :=
  (hexp .lowest).bind fun _ hk => .after fun _ => (hexp .lowest).bind fun _ hv => .pure ⟨hk, hv⟩

include hexp in
theorem yields_unary (op : UnaryOp) (start : UInt32) :
    Yields (fun e => e.height c ≤ n) (unary expression op start) :=
  (hexp .unary).bind fun operand h => .pure (by rw [Expr.height]; exact h)

include hexp hblock in
/-- What no operator wraps is as high as what stands inside it and one more. -/
theorem yields_primaryAt (lexeme : Lexeme) :
    Yields (fun e => e.height c ≤ n) (primaryAt expression block lexeme) := by
  obtain ⟨token, span⟩ := lexeme
  -- nothing stands inside a literal or a name
  have hatom {e : Expr} (he : e.height c = 0) :
      Yields (fun e => e.height c ≤ n) (advance >>= fun _ => Pure.pure e) :=
    .after fun _ => .pure (he ▸ Nat.zero_le n)
  unfold primaryAt
  dsimp only
  cases token with
  | name text => exact hatom rfl
  | integer value => exact hatom rfl
  | string value => exact hatom rfl
  | comment => exact .throw _
  | eof => exact .throw _
  | keyword word =>
    cases word with
    | trueWord => exact hatom rfl
    | falseWord => exact hatom rfl
    | functionWord =>
      refine .after fun _ => .after fun _ => .after fun _ => hblock.bind fun body hbody => .pure ?_
      rw [Expr.height]
      exact hbody
    | _ => exact .throw _
  | symbol sign =>
    cases sign with
    | leftParen =>
      refine .after fun _ => (hexp .lowest).bind fun inner hinner => .after fun _ => .pure ?_
      exact Nat.le_trans (Nat.le_add_left _ 1) hinner
    | leftBracket =>
      refine .after fun _ => (yields_list (hexp .lowest) _).bind fun elements helements => .pure ?_
      rw [Expr.height]
      exact Expr.maxHeight_le_iff.2 helements
    | leftBrace =>
      refine .after fun _ => (yields_list (yields_pair hexp) _).bind fun pairs hpairs => .pure ?_
      rw [Expr.height]
      exact Expr.maxPairHeight_le_iff.2 hpairs
    | plus => exact .after fun _ => yields_unary hexp .plus _
    | minus => exact .after fun _ => yields_unary hexp .minus _
    | bang => exact .after fun _ => yields_unary hexp .not _
    | _ => exact .throw _

include hexp hblock in
theorem yields_primary : Yields (fun e => e.height c ≤ n) (primary expression block) := by
  refine .after fun s => ?_
  split
  · exact .failAtEnd
  · exact yields_primaryAt hexp hblock _

include hexp in
/-- An operator is as high as its first operand and what that counts, unless another operand
goes deeper. -/
theorem yields_wrap {left : Expr} {bound : Nat} (op : Operator) (hleft : left.height c ≤ bound)
    (hbound : n ≤ bound) :
    Yields (fun e => e.height c ≤ c.operand + bound) (wrap expression left op) := by
  -- the first operand counts as the operator says, the second goes one level down
  have hoperands {m : Nat} (hm : m ≤ n) :
      max (c.operand + left.height c) m ≤ c.operand + bound := by
    omega
  refine .after fun _ => ?_
  cases op with
  | binary op =>
    refine (hexp _).bind fun right hright => .pure ?_
    rw [Expr.height]
    exact hoperands hright
  | assign =>
    refine (hexp _).bind fun value hvalue => .pure ?_
    rw [Expr.height]
    exact hoperands hvalue
  | call =>
    refine (yields_list (hexp .lowest) _).bind fun arguments harguments => .pure ?_
    rw [Expr.height]
    exact hoperands (Expr.maxHeight_le_iff.2 harguments)
  | index =>
    refine (hexp _).bind fun key hkey => .after fun _ => .pure ?_
    rw [Expr.height]
    exact hoperands hkey

end Pieces

/-! ### Pieces of nodes -/

section Nodes

variable {c : Counting} {n : Nat} {expression : Parse Expr} {block : Parse Block}
  (hexp : Yields (fun e => 1 + e.height c ≤ n) expression)
  (hblock : Yields (fun b => 1 + b.height c ≤ n) block)

include hexp in
theorem yields_binding : Yields (fun x => x.height c ≤ n) (binding expression) := by
  refine .after fun _ => .after fun _ => .after fun _ => hexp.bind fun value hvalue => .pure ?_
  rw [Node.height]
  exact hvalue

include hexp in
theorem yields_returning : Yields (fun x => x.height c ≤ n) (returning expression) := by
  refine .after fun _ => .after fun _ => ?_
  split
  · exact .pure (Nat.zero_le n)
  · refine hexp.bind fun value hvalue => .pure ?_
    rw [Node.height]
    exact hvalue

theorem isElseIf_of_endsWithBlock {x : Node} (h : x.endsWithBlock = true) :
    Block.isElseIf ⟨[x], x.span⟩ = true := by
  rw [Block.isElseIf, h, Bool.true_and]
  exact beq_self_eq_true _

include hexp hblock in
/-- An `if` with all that follow it after `else` is no higher than the highest of its parts, as
long as the blocks of the others are not counted. -/
theorem yields_conditionalWithin (hc : c.elseIf = 0) : ∀ fuel,
    Yields (fun x => x.height c ≤ n ∧ x.endsWithBlock = true)
      (conditionalWithin expression block fuel)
  | 0 => .failAtEnd
  | fuel + 1 => by
    refine .after fun _ => hexp.bind fun condition hcondition =>
      hblock.bind fun consequence hconsequence => .after fun hasElse => ?_
    split
    · refine .after fun _ => .after fun hasIf => ?_
      split
      · refine (yields_conditionalWithin hc fuel).bind fun inner hinner => ?_
        obtain ⟨hheight, hends⟩ := hinner
        refine .pure ⟨?_, rfl⟩
        -- the block around the inner `if` does not count, so the chain is as high as its highest
        -- link
        rw [Node.height, Counting.alternative, if_pos (isElseIf_of_endsWithBlock hends), hc,
          Nat.zero_add]
        refine Nat.max_le.2 ⟨Nat.max_le.2 ⟨hcondition, hconsequence⟩, ?_⟩
        exact Node.maxHeight_le_iff.2 (by simpa using hheight)
      · refine hblock.bind fun alternative halternative => .pure ⟨?_, rfl⟩
        have hcount : c.alternative alternative ≤ 1 := by
          rw [Counting.alternative]
          split <;> omega
        rw [Node.height]
        omega
    · refine .pure ⟨?_, rfl⟩
      rw [Node.height]
      exact Nat.max_le.2 ⟨hcondition, hconsequence⟩

include hexp hblock in
theorem yields_node (hc : c.elseIf = 0) :
    Yields (fun x => x.height c ≤ n) (node expression block) := by
  refine .after fun s => ?_
  split
  · exact yields_binding hexp
  · exact yields_returning hexp
  · exact .after fun _ => (yields_conditionalWithin hexp hblock hc _).imp fun _ h => h.1
  · rw [map_eq_pure_bind]
    refine hexp.bind fun e he => .pure ?_
    rw [Node.height]
    exact he
  · exact .failAtEnd

end Nodes

theorem yields_nodesWithin {P : Node → Prop} {node : Parse Node} (hnode : Yields P node) :
    ∀ fuel, Yields (fun r => ∀ x ∈ r.1, P x) (nodesWithin node fuel)
  | 0 => .failAtEnd
  | fuel + 1 => by
    refine .after fun _ => .after fun closes => ?_
    split
    · exact .after fun _ => .pure (by simp)
    · refine hnode.bind fun x hx => .after fun _ => ?_
      refine (yields_nodesWithin hnode fuel).bind fun r hr => .pure ?_
      exact List.forall_mem_cons.2 ⟨hx, hr⟩

theorem yields_braced {c : Counting} {n : Nat} {node : Parse Node}
    (hnode : Yields (fun x => x.height c ≤ n) node) :
    Yields (fun b => b.height c ≤ n) (braced node) := by
  refine .after fun _ => .after fun _ => (yields_nodesWithin hnode _).bind fun r hr => .pure ?_
  rw [Block.height]
  exact Node.maxHeight_le_iff.2 hr

/-! ### Expressions and blocks -/

section Levels

variable {c : Counting}

mutual

/-- **An expression** is no higher than its levels allow. -/
theorem yields_expression (hc : c.elseIf = 0) : ∀ levels place,
    Yields (fun e => 1 + e.height c ≤ c.most levels) (expression levels place)
  | 0, _ => .failTooDeep
  | levels + 1, place => by
    refine (yields_primary (yields_expression hc levels) (yields_block hc levels)).bind
      fun left hleft => ?_
    refine (yields_operators hc levels place left hleft (Nat.le_refl _)).imp fun e he => ?_
    rw [Counting.most]
    omega
termination_by structural levels => levels

/-- The operators of an expression raise it at most by one of its first operands each. -/
theorem yields_operators (hc : c.elseIf = 0) : ∀ levels place left {bound : Nat},
    left.height c ≤ bound → c.most levels ≤ bound →
    Yields (fun e => e.height c ≤ bound + c.operand * levels) (operators levels place left)
  | 0, place, left, bound, hleft, _ => by
    refine .after fun s => ?_
    split
    · split
      · exact .failTooDeep
      · exact .pure hleft
    · exact .pure hleft
  | levels + 1, place, left, bound, hleft, hbound => by
    rw [Counting.most] at hbound
    have hmul := Nat.mul_add_one c.operand levels
    -- the operator raises what it wraps by a first operand, and leaves a level less for the others
    refine .after fun s => ?_
    split
    · next op _ =>
      split
      · refine (yields_wrap (yields_expression hc levels) op hleft (by omega)).bind fun e he => ?_
        refine (yields_operators hc levels place e he (by omega)).imp fun e' he' => ?_
        omega
      · exact .pure (by omega)
    · exact .pure (by omega)
termination_by structural levels => levels

/-- **A block** is no higher than its levels allow. -/
theorem yields_block (hc : c.elseIf = 0) : ∀ levels,
    Yields (fun b => 1 + b.height c ≤ c.most levels) (block levels)
  | 0 => .failTooDeep
  | levels + 1 => by
    have hnode := yields_node (yields_expression hc levels .lowest) (yields_block hc levels) hc
    refine (yields_braced hnode).imp fun b hb => ?_
    rw [Counting.most]
    omega
termination_by structural levels => levels

end

/-! ### Programs -/

theorem yields_nextNode (hc : c.elseIf = 0) (levels : Nat) :
    Yields (fun next => ∀ x ∈ next, x.height c ≤ c.most levels) (nextNode levels) := by
  refine .after fun _ => .after fun s => ?_
  split
  · exact .pure (by simp)
  · exact .failAtEnd
  · refine (yields_node (yields_expression hc levels .lowest) (yields_block hc levels) hc).bind
      fun x hx => .after fun _ => .pure ?_
    rintro _ ⟨⟩
    exact hx

theorem yields_programWithin (hc : c.elseIf = 0) (levels : Nat) : ∀ fuel,
    Yields (fun xs => ∀ x ∈ xs, x.height c ≤ c.most levels) (programWithin levels fuel)
  | 0 => .pure (by simp)
  | fuel + 1 => by
    refine (yields_nextNode hc levels).bind fun next hnext => ?_
    split
    · exact .pure (by simp)
    · next x =>
      refine (yields_programWithin hc levels fuel).bind fun xs hxs => .pure ?_
      exact List.forall_mem_cons.2 ⟨hnext x rfl, hxs⟩

theorem yields_program (hc : c.elseIf = 0) (levels : Nat) :
    Yields (fun p => p.height c ≤ c.most levels) (program levels) := by
  refine .after fun _ => .after fun _ => (yields_programWithin hc levels _).bind fun xs hxs => ?_
  exact .after fun _ => .pure (Node.maxHeight_le_iff.2 hxs)

end Levels

end Parse

/-! ### The heights that the levels of a program allow -/

namespace Counting

theorem le_most (c : Counting) : ∀ levels, levels ≤ c.most levels
  | 0 => Nat.le_refl 0
  | levels + 1 => by
    have ih := c.le_most levels
    rw [most]
    omega

/-- Without first operands a path is no longer than its levels. -/
theorem most_of_operand_eq_zero {c : Counting} (hc : c.operand = 0) : ∀ levels,
    c.most levels = levels
  | 0 => rfl
  | levels + 1 => by rw [most, most_of_operand_eq_zero hc levels, hc, Nat.zero_mul, Nat.add_zero]

/-- With first operands every level adds as many as there are levels up to it. -/
theorem most_of_operand_eq_one {c : Counting} (hc : c.operand = 1) : ∀ levels,
    2 * c.most levels = levels * (levels + 1)
  | 0 => rfl
  | levels + 1 => by
    have ih := most_of_operand_eq_one hc levels
    have hsquare : (levels + 1) * (levels + 1 + 1) = levels * (levels + 1) + 2 * (levels + 1) := by
      rw [← Nat.add_mul, Nat.mul_comm]
    rw [most, hc, hsquare]
    omega

end Counting

namespace Program

variable {text : String} {program : Program}

/-- **The height of a program that has been parsed**, with and without the first operands of
operators. The blocks that stand for an `else if` are left out. -/
theorem height_le (h : parse text = .ok program) :
    program.height ⟨0, 0⟩ ≤ maxNesting ∧
      program.height ⟨1, 0⟩ ≤ maxNesting * (maxNesting + 1) / 2 := by
  rw [parse, ofStream] at h
  cases hs : Parse.program maxNesting (.ofStream (.ofText text)) with
  | error error s =>
    rw [hs] at h
    cases h
  | ok q s =>
    rw [hs] at h
    cases h
    have hplain := Parse.yields_program (c := ⟨0, 0⟩) rfl maxNesting _ _ _ hs
    have hoperands := Parse.yields_program (c := ⟨1, 0⟩) rfl maxNesting _ _ _ hs
    rw [Counting.most_of_operand_eq_zero rfl] at hplain
    have htwice := Counting.most_of_operand_eq_one (c := ⟨1, 0⟩) rfl maxNesting
    exact ⟨hplain, by omega⟩

/-- **What a path of a program that has been parsed may hold.** The parts that are neither first
operands nor an `else if` are within the bound on every path. So all parts are within it exactly if
the first operands and the `else if`s are no more than what those parts leave of the bound. -/
theorem path_length_le_iff (h : parse text = .ok program) :
    (∀ path, program.IsPath path → path.count .level ≤ maxNesting) ∧
      ((∀ path, program.IsPath path → path.length ≤ maxNesting) ↔
        ∀ path, program.IsPath path →
          path.count .operand + path.count .elseIf ≤ maxNesting - path.count .level) := by
  have hlevels (path : List Descent) (hpath : program.IsPath path) :
      path.count .level ≤ maxNesting := by
    rw [← Counting.total_levels]
    exact height_le_iff.1 (height_le h).1 path hpath
  refine ⟨hlevels, forall₂_congr fun path hpath => ?_⟩
  have hlevel := hlevels path hpath
  have hlength := Descent.length_eq path
  omega

/-- A call of a call: the first operands take two of the levels that are left. -/
theorem path_length_le_iff_calls : ∃ program, parse "f()()" = .ok program ∧
    (∀ path, program.IsPath path → path.count .level ≤ maxNesting) ∧
      ((∀ path, program.IsPath path → path.length ≤ maxNesting) ↔
        ∀ path, program.IsPath path →
          path.count .operand + path.count .elseIf ≤ maxNesting - path.count .level) := by
  have hparse : parse "f()()" = .ok ⟨[.expression (.call (.call (.name ⟨"f", 0, 1⟩) [] ⟨0, 3⟩) []
      ⟨0, 5⟩)], 0, 5⟩ := by rfl
  exact ⟨_, hparse, path_length_le_iff hparse⟩

end Program

end Script
