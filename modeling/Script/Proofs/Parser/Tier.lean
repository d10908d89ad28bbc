import Script.Proofs.Parser.Run

/-!
# Tiers and precedences

The parser reads at a place of some precedence, where the grammar has tiers of expressions. Each
place stands for a tier, and each operator makes one.

* `Grammar.Derives.weaken`: a phrase of one tier is one of every weaker tier;
* `Precedence.tier`, `Operator.tier`: the tiers of places and of operators;
* `Grammar.Tier.follow`: how strong an operator may be that comes after a phrase of a tier.
-/

namespace Script

open Grammar

/-! ### The order of tiers -/

namespace Grammar.Tier

/-- The place of a tier in their order: one above the precedence of the operators below it. -/
def rank : Tier → Nat
  | assignment => 1
  | comparison => 2
  | sum => 3
  | product => 4
  | signed => 5
  | applied => 6
  | primary => 7

/-- How strong an operator may be that comes after a phrase of a tier. An assignment leaves
none, since it takes all that its value can take. -/
def follow : Tier → Nat
  | assignment => 0
  | tier => tier.rank

theorem follow_le_rank (tier : Tier) : tier.follow ≤ tier.rank := by
  cases tier <;> simp [follow, rank]

theorem rank_next {tier : Tier} (h : tier ≠ primary) : tier.next.rank = tier.rank + 1 := by
  cases tier <;> first | rfl | exact absurd rfl h

theorem rank_le_next (tier : Tier) : tier.rank ≤ tier.next.rank := by
  cases tier <;> simp [rank, next]

theorem follow_le_next (tier : Tier) : tier.follow ≤ tier.next.follow := by
  cases tier <;> simp [follow, rank, next]

theorem rank_le_primary (tier : Tier) : tier.rank ≤ primary.rank := by
  cases tier <;> simp [rank]

theorem eq_of_rank_eq {a b : Tier} (h : a.rank = b.rank) : a = b := by
  cases a <;> cases b <;> first | rfl | simp [rank] at h

end Grammar.Tier

/-- A phrase of one tier is a phrase of every weaker tier. -/
theorem derives_of_rank_le {l : List Lexeme} {e : Expr} : ∀ {n : Nat} {weak strong : Tier},
    strong.rank = weak.rank + n → Derives (.expression strong) l e → Derives (.expression weak) l e
  | 0, weak, strong, hn, h => Tier.eq_of_rank_eq hn ▸ h
  | n + 1, weak, strong, hn, h => by
    have hne : weak ≠ .primary := by
      rintro rfl
      have hle := Tier.rank_le_primary strong
      omega
    refine .lift (derives_of_rank_le (n := n) ?_ h)
    rw [Tier.rank_next hne]
    omega

theorem Grammar.Derives.weaken {l : List Lexeme} {e : Expr} {weak strong : Tier}
    (h : Derives (.expression strong) l e) (hle : weak.rank ≤ strong.rank) :
    Derives (.expression weak) l e :=
  derives_of_rank_le (Nat.add_sub_cancel' hle).symm h

/-! ### Places and operators -/

/-- The tier that is read at a place: that of the operators which bind tighter. In front of an
operand stand any number of signs. -/
def Precedence.tier : Precedence → Tier
  | lowest => .assignment
  | assign => .comparison
  | compare => .sum
  | sum => .product
  | product => .signed
  | unary => .signed
  | call => .applied

/-- The tier that an operator makes. -/
def Operator.tier : Operator → Tier
  | binary op => tierOf op
  | assign => .assignment
  | call => .applied
  | index => .applied

namespace Operator

theorem rank_tier (op : Operator) : op.tier.rank = op.precedence.rank := by
  cases op with
  | binary op => cases op <;> rfl
  | _ => rfl

theorem tier_rightPrecedence (op : BinaryOp) :
    (binary op).rightPrecedence.tier = (tierOf op).next := by
  cases op <;> rfl

theorem rank_rightPrecedence (op : BinaryOp) :
    (binary op).rightPrecedence.rank = (tierOf op).follow := by
  cases op <;> rfl

theorem rightPrecedence_ne_call (op : BinaryOp) : (binary op).rightPrecedence ≠ .call := by
  cases op <;> simp [rightPrecedence, precedence]

/-- The symbol that an operator begins with. -/
def symbol : Operator → Symbol
  | binary op => op.symbol
  | assign => .assign
  | call => .leftParen
  | index => .leftBracket

theorem eq_symbol_of_ofToken? {token : Token} {op : Operator} (h : ofToken? token = some op) :
    token = .symbol op.symbol := by
  unfold ofToken? at h
  split at h <;> first | (obtain rfl := Option.some.inj h; rfl) | cases h

end Operator

/-- An operator that comes next is the next lexeme. -/
theorem ParserState.exists_cons_of_operator? {s : ParserState} {op : Operator}
    (h : s.operator? = some op) : ∃ span rest, s.lexemes = ⟨.symbol op.symbol, span⟩ :: rest := by
  obtain ⟨x, hx, hop⟩ := Option.bind_eq_some_iff.1 h
  have htoken := Operator.eq_symbol_of_ofToken? hop
  refine Parse.exists_cons_of_lookahead (by simp) ?_
  rw [Comes, hx, Option.map_some, htoken]
  exact beq_self_eq_true _

namespace Consumes

variable {s s' : ParserState} {l : List Lexeme}

theorem operator?_eq {x : Lexeme} (h : Consumes s (x :: l) s') :
    s.operator? = Operator.ofToken? x.token := by
  rw [ParserState.operator?, h.lookahead_eq, Option.bind_some]

theorem precedence_eq {x : Lexeme} (h : Consumes s (x :: l) s') :
    s.precedence = ((Operator.ofToken? x.token).map Operator.precedence).getD .lowest := by
  rw [ParserState.precedence, h.operator?_eq]

end Consumes

end Script
