import Script.Proofs.Lexeme.Lines
import Script.Proofs.Span
import Script.Proofs.Sequence
import Script.Parser

/-!
# Parsers of a text that has been moved

A parser treats offsets alike, wherever a text stands: it compares two of them, and hands on those
that it finds. So from lexemes that have been moved, by a map of the offsets that keeps their order,
it reads the tree of those that have not, with every span moved, and an error too is the same but
for its span (`Parse.Moves`). The bounds of the parsers that repeat something are numbers of
lexemes, which are the same for both.

* `Expr.move`, `Node.move`, `Block.move`: a tree with every span moved;
* `Parse.Moves.bind`: a sequence of parsers;
* `Parse.moves_expression`, `Parse.moves_block`, `Parse.moves_programWithin`: the parsers.
-/

namespace Script

/-! ### Trees -/

/-- A name moved. -/
def Ident.move (along : UInt32 → UInt32) (ident : Ident) : Ident :=
  ⟨ident.name, ident.span.move along⟩

mutual

/-- An expression moved. -/
def Expr.move (along : UInt32 → UInt32) : Expr → Expr
  | .name ident => .name (ident.move along)
  | .integer value span => .integer value (span.move along)
  | .boolean value span => .boolean value (span.move along)
  | .string value span => .string value (span.move along)
  | .array elements span => .array (Expr.moveAll along elements) (span.move along)
  | .map pairs span => .map (Expr.movePairs along pairs) (span.move along)
  | .unary op operand span => .unary op (operand.move along) (span.move along)
  | .binary op left right span =>
    .binary op (left.move along) (right.move along) (span.move along)
  | .assign target value span =>
    .assign (target.move along) (value.move along) (span.move along)
  | .index target key span =>
    .index (target.move along) (key.move along) (span.move along)
  | .function parameters body span =>
    .function (parameters.map (·.move along)) (body.move along) (span.move along)
  | .call callee arguments span =>
    .call (callee.move along) (Expr.moveAll along arguments) (span.move along)
termination_by structural e => e

/-- Expressions moved. -/
def Expr.moveAll (along : UInt32 → UInt32) : List Expr → List Expr
  | [] => []
  | e :: rest => e.move along :: Expr.moveAll along rest
termination_by structural es => es

/-- Pairs moved. -/
def Expr.movePairs (along : UInt32 → UInt32) : List (Expr × Expr) → List (Expr × Expr)
  | [] => []
  | (key, value) :: rest =>
    (key.move along, value.move along) :: Expr.movePairs along rest
termination_by structural pairs => pairs

/-- A node moved. -/
def Node.move (along : UInt32 → UInt32) : Node → Node
  | .binding ident value span =>
    .binding (ident.move along) (value.move along) (span.move along)
  | .returning none span => .returning none (span.move along)
  | .returning (some value) span =>
    .returning (some (value.move along)) (span.move along)
  | .conditional condition consequence none span =>
    .conditional (condition.move along) (consequence.move along) none
      (span.move along)
  | .conditional condition consequence (some alternative) span =>
    .conditional (condition.move along) (consequence.move along)
      (some (alternative.move along)) (span.move along)
  | .expression value => .expression (value.move along)
termination_by structural node => node

/-- Nodes moved. -/
def Node.moveAll (along : UInt32 → UInt32) : List Node → List Node
  | [] => []
  | node :: rest => node.move along :: Node.moveAll along rest
termination_by structural nodes => nodes

/-- A block moved. -/
def Block.move (along : UInt32 → UInt32) : Block → Block
  | ⟨nodes, span⟩ => ⟨Node.moveAll along nodes, span.move along⟩
termination_by structural block => block

end

theorem Expr.moveAll_eq_map (along : UInt32 → UInt32) : ∀ es,
    Expr.moveAll along es = es.map (·.move along)
  | [] => rfl
  | e :: rest => by rw [moveAll, List.map_cons, moveAll_eq_map along rest]

theorem Expr.movePairs_eq_map (along : UInt32 → UInt32) : ∀ pairs, Expr.movePairs along pairs =
    pairs.map (Prod.map (·.move along) (·.move along))
  | [] => rfl
  | (key, value) :: rest => by
    rw [movePairs, List.map_cons, movePairs_eq_map along rest, Prod.map]

theorem Node.moveAll_eq_map (along : UInt32 → UInt32) : ∀ nodes,
    Node.moveAll along nodes = nodes.map (·.move along)
  | [] => rfl
  | node :: rest => by rw [moveAll, List.map_cons, moveAll_eq_map along rest]

@[simp] theorem Expr.span_move (along : UInt32 → UInt32) (e : Expr) :
    (e.move along).span = e.span.move along := by
  cases e <;> rfl

@[simp] theorem Node.span_move (along : UInt32 → UInt32) (node : Node) :
    (node.move along).span = node.span.move along := by
  cases node with
  | returning value span => cases value <;> rfl
  | conditional condition consequence alternative span => cases alternative <;> rfl
  | binding ident value span => rfl
  | expression value => exact value.span_move along

@[simp] theorem Node.endsWithBlock_move (along : UInt32 → UInt32) (node : Node) :
    (node.move along).endsWithBlock = node.endsWithBlock := by
  cases node with
  | returning value span => cases value <;> rfl
  | conditional condition consequence alternative span => cases alternative <;> rfl
  | _ => rfl

@[simp] theorem Block.span_move (along : UInt32 → UInt32) (block : Block) :
    (block.move along).span = block.span.move along := by
  cases block
  rfl

section Twice

variable (f g : UInt32 → UInt32)

@[simp] theorem Ident.move_move (ident : Ident) : (ident.move f).move g = ident.move (g ∘ f) := rfl

mutual

/-- An expression that is moved twice. -/
theorem Expr.move_move : ∀ e : Expr, (e.move f).move g = e.move (g ∘ f)
  | .name _ | .integer _ _ | .boolean _ _ | .string _ _ => rfl
  | .array elements span => by simp only [Expr.move, Expr.moveAll_moveAll elements, Span.move_move]
  | .map pairs span => by simp only [Expr.move, Expr.movePairs_movePairs pairs, Span.move_move]
  | .unary op operand span => by simp only [Expr.move, operand.move_move, Span.move_move]
  | .binary op left right span => by
    simp only [Expr.move, left.move_move, right.move_move, Span.move_move]
  | .assign target value span => by
    simp only [Expr.move, target.move_move, value.move_move, Span.move_move]
  | .index target key span => by
    simp only [Expr.move, target.move_move, key.move_move, Span.move_move]
  | .function parameters body span => by
    simp only [Expr.move, List.map_map, Function.comp_def, Ident.move_move, body.move_move,
      Span.move_move]
  | .call callee arguments span => by
    simp only [Expr.move, callee.move_move, Expr.moveAll_moveAll arguments, Span.move_move]
termination_by structural e => e

theorem Expr.moveAll_moveAll : ∀ es : List Expr,
    Expr.moveAll g (Expr.moveAll f es) = Expr.moveAll (g ∘ f) es
  | [] => rfl
  | e :: rest => by simp only [Expr.moveAll, e.move_move, Expr.moveAll_moveAll rest]
termination_by structural es => es

theorem Expr.movePairs_movePairs : ∀ pairs : List (Expr × Expr),
    Expr.movePairs g (Expr.movePairs f pairs) = Expr.movePairs (g ∘ f) pairs
  | [] => rfl
  | (key, value) :: rest => by
    simp only [Expr.movePairs, key.move_move, value.move_move, Expr.movePairs_movePairs rest]
termination_by structural pairs => pairs

/-- A node that is moved twice. -/
theorem Node.move_move : ∀ node : Node, (node.move f).move g = node.move (g ∘ f)
  | .binding ident value span => by
    simp only [Node.move, Ident.move_move, value.move_move, Span.move_move]
  | .returning none span => rfl
  | .returning (some value) span => by simp only [Node.move, value.move_move, Span.move_move]
  | .conditional condition consequence none span => by
    simp only [Node.move, condition.move_move, consequence.move_move, Span.move_move]
  | .conditional condition consequence (some alternative) span => by
    simp only [Node.move, condition.move_move, consequence.move_move, alternative.move_move,
      Span.move_move]
  | .expression value => by simp only [Node.move, value.move_move]
termination_by structural node => node

theorem Node.moveAll_moveAll : ∀ nodes : List Node,
    Node.moveAll g (Node.moveAll f nodes) = Node.moveAll (g ∘ f) nodes
  | [] => rfl
  | node :: rest => by simp only [Node.moveAll, node.move_move, Node.moveAll_moveAll rest]
termination_by structural nodes => nodes

/-- A block that is moved twice. -/
theorem Block.move_move : ∀ block : Block, (block.move f).move g = block.move (g ∘ f)
  | ⟨nodes, span⟩ => by simp only [Block.move, Node.moveAll_moveAll nodes, Span.move_move]
termination_by structural block => block

end

end Twice

/-- A map that keeps the order of offsets keeps the smaller and the greater of two. -/
theorem Span.hull_move {along : UInt32 → UInt32} (hkeeps : ∀ a b, a ≤ b → along a ≤ along b)
    (a b : Span) : (a.move along).hull (b.move along) = (a.hull b).move along := by
  have hmin (a b : UInt32) : min (along a) (along b) = along (min a b) := by
    rcases UInt32.le_total a b with h | h
    · rw [Offset.min_eq_left h, Offset.min_eq_left (hkeeps a b h)]
    · rw [Offset.min_eq_right h, Offset.min_eq_right (hkeeps b a h)]
  have hmax (a b : UInt32) : max (along a) (along b) = along (max a b) := by
    rcases UInt32.le_total a b with h | h
    · rw [Offset.max_eq_right h, Offset.max_eq_right (hkeeps a b h)]
    · rw [Offset.max_eq_left h, Offset.max_eq_left (hkeeps b a h)]
  exact congrArg₂ mk (hmin a.start b.start) (hmax a.stop b.stop)

/-! ### States and results -/

/-- An error of syntax moved. -/
def ParseError.move (along : UInt32 → UInt32) (error : ParseError) : ParseError :=
  ⟨error.cause, error.span.move along⟩

/-- A state of a parser moved. -/
def ParserState.move (along : UInt32 → UInt32) (s : ParserState) : ParserState :=
  ⟨s.lexemes.map (·.move along), s.ending.move along, along s.lastStop⟩

theorem ParserState.move_move (f g : UInt32 → UInt32) (s : ParserState) :
    (s.move f).move g = s.move (g ∘ f) := by
  simp [move]

namespace ParserState

variable (along : UInt32 → UInt32) (s : ParserState)

theorem lookahead?_move :
    (s.move along).lookahead? = s.lookahead?.map (·.move along) := by
  obtain ⟨lexemes, ending, stop⟩ := s
  cases lexemes <;> cases ending <;> rfl

theorem advance_move : (s.move along).advance = s.advance.move along := by
  obtain ⟨lexemes, ending, stop⟩ := s
  cases lexemes <;> rfl

theorem endError_move : (s.move along).endError = s.endError.move along := by
  obtain ⟨lexemes, ending, stop⟩ := s
  cases ending <;> rfl

theorem depthError_move : (s.move along).depthError = s.depthError.move along := by
  rw [depthError, lookahead?_move, depthError]
  cases s.lookahead? <;> rfl

theorem operator?_move : (s.move along).operator? = s.operator? := by
  rw [operator?, lookahead?_move, operator?]
  cases s.lookahead? <;> rfl

theorem length_move : (s.move along).lexemes.length = s.lexemes.length :=
  List.length_map _

end ParserState

namespace Parse

variable {α β : Type} {along : UInt32 → UInt32} {s : ParserState}

/-- What a run gives, moved: the value in its own way, the error and the state by their spans. -/
def moved (along : UInt32 → UInt32) (move : α → α) :
    EStateM.Result ParseError ParserState α → EStateM.Result ParseError ParserState α
  | .ok a s => .ok (move a) (s.move along)
  | .error error s => .error (error.move along) (s.move along)

/-- From a state that has been moved a parser does what another does from the state itself. -/
def MovesAt (along : UInt32 → UInt32) (move : α → α) (p q : Parse α) (s : ParserState) : Prop :=
  q (s.move along) = moved along move (p s)

/-- From whatever has been moved a parser does what another does from what has not. -/
def Moves (along : UInt32 → UInt32) (move : α → α) (p q : Parse α) : Prop :=
  ∀ s, MovesAt along move p q s

namespace Moves

variable {move : α → α} {move' : β → β} {p q : Parse α} {f g : α → Parse β}

/-- A sequence of parsers, the second of which is given what the first one has read, moved. -/
theorem bindAt (h : MovesAt along move p q s)
    (hf : ∀ a, Moves along move' (f a) (g (move a))) :
    MovesAt along move' (p >>= f) (q >>= g) s := by
  unfold MovesAt at h ⊢
  cases hp : p s with
  | ok a s' =>
    rw [hp] at h
    rw [bind_ok h, bind_ok hp]
    exact hf a s'
  | error error s' =>
    rw [hp] at h
    rw [bind_error h, bind_error hp]
    rfl

theorem bind (h : Moves along move p q) (hf : ∀ a, Moves along move' (f a) (g (move a))) :
    Moves along move' (p >>= f) (q >>= g) :=
  fun s => bindAt (h s) hf

theorem pure {a b : α} (h : b = move a) :
    Moves along move (Pure.pure a) (Pure.pure b) := by
  intro s
  rw [h]
  rfl

theorem throw {error error' : ParseError} (h : error' = error.move along) :
    Moves along move (MonadExcept.throw error : Parse α) (MonadExcept.throw error') := by
  intro s
  rw [h]
  rfl

theorem failAtEnd : Moves along move (failAtEnd : Parse α) Parse.failAtEnd := by
  intro s
  show EStateM.Result.error (s.move along).endError _ = _
  rw [ParserState.endError_move]
  rfl

theorem failTooDeep : Moves along move (failTooDeep : Parse α) Parse.failTooDeep := by
  intro s
  show EStateM.Result.error (s.move along).depthError _ = _
  rw [ParserState.depthError_move]
  rfl

/-- Looking at the state, which has been moved on one side. -/
theorem get {f g : ParserState → Parse α}
    (h : ∀ s, MovesAt along move (f s) (g (s.move along)) s) :
    Moves along move (MonadState.get >>= f) (MonadState.get >>= g) :=
  h

end Moves

/-! ### Single lexemes -/

theorem moves_advance : Moves along id advance advance := by
  intro s
  show EStateM.Result.ok () (s.move along).advance = _
  rw [ParserState.advance_move]
  rfl

theorem moves_comes (token : Token) : Moves along id (comes token) (comes token) := by
  intro s
  show EStateM.Result.ok ((s.move along).lookahead?.map (·.token) == some token) _ = _
  rw [ParserState.lookahead?_move, Option.map_map]
  rfl

theorem moves_expect (token : Token) :
    Moves along (·.move along) (expect token) (expect token) := by
  refine .get fun s => ?_
  rw [ParserState.move]
  cases s.lexemes with
  | nil => exact Moves.failAtEnd s
  | cons x rest =>
    show MovesAt _ _ (if x.token = token then _ else _) (if x.token = token then _ else _) s
    split
    · exact Moves.bindAt (moves_advance s) fun _ => .pure rfl
    · exact Moves.throw rfl s

theorem moves_expectName : Moves along (·.move along) expectName expectName := by
  refine .get fun s => ?_
  rw [ParserState.move]
  cases s.lexemes with
  | nil => exact Moves.failAtEnd s
  | cons x rest =>
    obtain ⟨token, span⟩ := x
    cases token with
    | name text => exact Moves.bindAt (moves_advance s) fun _ => .pure rfl
    | _ => exact Moves.throw rfl s

theorem moves_skipSemicolonsWithin (n : Nat) :
    Moves along id (skipSemicolonsWithin n) (skipSemicolonsWithin n) := by
  induction n with
  | zero => exact .pure rfl
  | succ n ih =>
    refine (moves_comes _).bind fun semicolon => ?_
    cases semicolon with
    | true => exact moves_advance.bind fun _ => ih
    | false => exact .pure rfl

theorem moves_skipSemicolons : Moves along id skipSemicolons skipSemicolons := by
  refine .get fun s => ?_
  rw [ParserState.length_move]
  exact moves_skipSemicolonsWithin _ s

/-! ### Lists -/

section Lists

variable {move : α → α} {item item' : Parse α} (hitem : Moves along move item item')
include hitem

theorem moves_afterCommasWithin (n : Nat) :
    Moves along (List.map move) (afterCommasWithin item n) (afterCommasWithin item' n) := by
  induction n with
  | zero => exact .pure rfl
  | succ n ih =>
    refine (moves_comes _).bind fun comma => ?_
    cases comma with
    | true => exact moves_advance.bind fun _ => hitem.bind fun x => ih.bind fun xs => .pure rfl
    | false => exact .pure rfl

theorem moves_list (closing : Symbol) :
    Moves along (Prod.map (List.map move) along) (list item closing)
      (list item' closing) := by
  have hafter : Moves along (List.map move) (afterCommas item) (afterCommas item') := by
    refine .get fun s => ?_
    rw [ParserState.length_move]
    exact moves_afterCommasWithin hitem _ s
  refine (moves_comes _).bind fun closes => ?_
  cases closes with
  | true => exact (moves_expect _).bind fun _ => .pure rfl
  | false =>
    exact hitem.bind fun x => hafter.bind fun xs => (moves_expect _).bind fun _ => .pure rfl

end Lists

/-! ### Pieces of expressions -/

section Pieces

variable {expression : Precedence → Parse Expr} {block : Parse Block}
  (hexp : ∀ place, Moves along (·.move along) (expression place) (expression place))
  (hblock : Moves along (·.move along) block block)

include hexp in
theorem moves_pair :
    Moves along (Prod.map (·.move along) (·.move along)) (pair (expression .lowest))
      (pair (expression .lowest)) :=
  (hexp _).bind fun _ => (moves_expect _).bind fun _ => (hexp _).bind fun _ => .pure rfl

include hexp in
theorem moves_unary (op : UnaryOp) (start : UInt32) :
    Moves along (·.move along) (unary expression op start)
      (unary expression op (along start)) := by
  refine (hexp _).bind fun operand => .pure ?_
  rw [Expr.span_move]
  rfl

include hblock in
theorem moves_function (start : UInt32) :
    Moves along (·.move along) (function block start)
      (function block (along start)) :=
  (moves_expect _).bind fun _ => (moves_list moves_expectName _).bind fun _ =>
    hblock.bind fun body => .pure (by rw [Block.span_move]; rfl)

include hexp hblock in
theorem moves_primaryAt (x : Lexeme) :
    Moves along (·.move along) (primaryAt expression block x)
      (primaryAt expression block (x.move along)) := by
  obtain ⟨token, span⟩ := x
  -- an expression of one lexeme moves with its span
  have hatom {e e' : Expr} (he : e' = e.move along) :
      Moves along (·.move along) (advance >>= fun _ => Pure.pure e)
        (advance >>= fun _ => Pure.pure e') :=
    moves_advance.bind fun _ => .pure he
  unfold primaryAt
  dsimp only [Lexeme.move]
  cases token with
  | name text => exact hatom rfl
  | integer value => exact hatom rfl
  | string value => exact hatom rfl
  | comment => exact .throw rfl
  | eof => exact .throw rfl
  | keyword word =>
    cases word with
    | trueWord => exact hatom rfl
    | falseWord => exact hatom rfl
    | functionWord => exact moves_advance.bind fun _ => moves_function hblock _
    | _ => exact .throw rfl
  | symbol sign =>
    cases sign with
    | leftParen =>
      exact moves_advance.bind fun _ => (hexp _).bind fun _ => (moves_expect _).bind fun _ =>
        .pure rfl
    | leftBracket =>
      refine moves_advance.bind fun _ => (moves_list (hexp _) _).bind fun r => .pure ?_
      rw [Expr.move, Expr.moveAll_eq_map]
      rfl
    | leftBrace =>
      refine moves_advance.bind fun _ => (moves_list (moves_pair hexp) _).bind fun r => .pure ?_
      rw [Expr.move, Expr.movePairs_eq_map]
      rfl
    | plus => exact moves_advance.bind fun _ => moves_unary hexp _ _
    | minus => exact moves_advance.bind fun _ => moves_unary hexp _ _
    | bang => exact moves_advance.bind fun _ => moves_unary hexp _ _
    | _ => exact .throw rfl

include hexp hblock in
theorem moves_primary :
    Moves along (·.move along) (primary expression block) (primary expression block) := by
  refine .get fun s => ?_
  rw [ParserState.move]
  cases s.lexemes with
  | nil => exact Moves.failAtEnd s
  | cons x rest => exact moves_primaryAt hexp hblock x s

variable (hkeeps : ∀ a b, a ≤ b → along a ≤ along b)

include hexp hkeeps in
theorem moves_wrap (left : Expr) (op : Operator) :
    Moves along (·.move along) (wrap expression left op)
      (wrap expression (left.move along) op) := by
  refine moves_advance.bind fun _ => ?_
  cases op with
  | binary op =>
    refine (hexp _).bind fun right => .pure ?_
    rw [Expr.span_move, Expr.span_move, Span.hull_move hkeeps]
    rfl
  | assign =>
    refine (hexp _).bind fun value => .pure ?_
    rw [Expr.span_move, Expr.span_move, Span.hull_move hkeeps]
    rfl
  | call =>
    refine (moves_list (hexp _) _).bind fun r => .pure ?_
    rw [Expr.move, Expr.moveAll_eq_map, Expr.span_move]
    rfl
  | index =>
    refine (hexp _).bind fun key => (moves_expect _).bind fun close => .pure ?_
    rw [Expr.span_move]
    rfl

end Pieces

/-! ### Pieces of nodes -/

section Nodes

variable {expression : Parse Expr} {block : Parse Block}
  (hexp : Moves along (·.move along) expression expression)
  (hblock : Moves along (·.move along) block block)

include hexp in
theorem moves_binding :
    Moves along (·.move along) (binding expression) (binding expression) := by
  refine (moves_expect _).bind fun _ => moves_expectName.bind fun _ =>
    (moves_expect _).bind fun _ => hexp.bind fun value => .pure ?_
  rw [Expr.span_move]
  rfl

include hexp in
theorem moves_returning :
    Moves along (·.move along) (returning expression) (returning expression) := by
  refine (moves_expect _).bind fun opening => .get fun s => ?_
  rw [ParserState.lookahead?_move, Option.any_map]
  show MovesAt _ _ (if s.lookahead?.any (endsReturn ·.token) then _ else _)
    (if s.lookahead?.any (endsReturn ·.token) then _ else _) s
  split
  · exact Moves.pure rfl s
  · refine Moves.bindAt (hexp s) fun value => .pure ?_
    rw [Expr.span_move]
    rfl

include hexp hblock in
theorem moves_conditionalWithin (n : Nat) :
    Moves along (·.move along) (conditionalWithin expression block n)
      (conditionalWithin expression block n) := by
  induction n with
  | zero => exact .failAtEnd
  | succ n ih =>
    refine (moves_expect _).bind fun opening => hexp.bind fun condition =>
      hblock.bind fun consequence => (moves_comes _).bind fun hasElse => ?_
    cases hasElse with
    | true =>
      refine moves_advance.bind fun _ => (moves_comes _).bind fun hasIf => ?_
      cases hasIf with
      | true =>
        refine ih.bind fun inner => .pure ?_
        rw [Node.span_move]
        rfl
      | false => exact hblock.bind fun alternative => .pure (by rw [Block.span_move]; rfl)
    | false => exact .pure (by rw [Block.span_move]; rfl)

include hexp hblock in
theorem moves_node :
    Moves along (·.move along) (node expression block) (node expression block) := by
  refine .get fun s => ?_
  rw [ParserState.lookahead?_move]
  cases s.lookahead? with
  | none => exact Moves.failAtEnd s
  | some x =>
    obtain ⟨token, span⟩ := x
    have hexpression : Moves along (·.move along) (Node.expression <$> expression)
        (Node.expression <$> expression) := by
      rw [map_eq_pure_bind]
      exact hexp.bind fun _ => .pure rfl
    cases token with
    | keyword word =>
      cases word with
      | letWord => exact moves_binding hexp s
      | returnWord => exact moves_returning hexp s
      | ifWord =>
        refine Moves.get (fun s => ?_) s
        -- the bound on the links is a number of lexemes, which stays the same
        rw [ParserState.length_move]
        exact moves_conditionalWithin hexp hblock _ s
      | _ => exact hexpression s
    | _ => exact hexpression s

theorem moves_terminator (node : Node) (closing : Token) :
    Moves along id (terminator node closing) (terminator (node.move along) closing) := by
  refine .get fun s => ?_
  rw [ParserState.lookahead?_move, Node.endsWithBlock_move]
  cases s.lookahead? with
  | none =>
    show MovesAt _ _ (if node.endsWithBlock then _ else _)
      (if node.endsWithBlock then _ else _) s
    split
    · exact Moves.pure rfl s
    · exact Moves.failAtEnd s
  | some x =>
    obtain ⟨token, span⟩ := x
    dsimp only [Option.map_some, Lexeme.move]
    split
    · exact moves_advance s
    · split
      · exact Moves.pure rfl s
      · split
        · exact Moves.failAtEnd s
        · exact Moves.get (fun s => Moves.throw rfl s) s

theorem moves_nodesWithin {node : Parse Node}
    (hnode : Moves along (·.move along) node node) (n : Nat) :
    Moves along (Prod.map (List.map (·.move along)) along) (nodesWithin node n)
      (nodesWithin node n) := by
  induction n with
  | zero => exact .failAtEnd
  | succ n ih =>
    refine moves_skipSemicolons.bind fun _ => (moves_comes _).bind fun closes => ?_
    cases closes with
    | true => exact (moves_expect _).bind fun _ => .pure rfl
    | false =>
      exact hnode.bind fun x => (moves_terminator x _).bind fun _ => ih.bind fun _ => .pure rfl

theorem moves_braced {node : Parse Node}
    (hnode : Moves along (·.move along) node node) :
    Moves along (·.move along) (braced node) (braced node) := by
  refine (moves_expect _).bind fun opening => .get fun s => ?_
  rw [ParserState.length_move]
  refine Moves.bindAt (moves_nodesWithin hnode _ s) fun r => .pure ?_
  rw [Block.move, Node.moveAll_eq_map]
  rfl

end Nodes

/-! ### Expressions and blocks -/

section Levels

variable (hkeeps : ∀ a b, a ≤ b → along a ≤ along b)
include hkeeps

/-- All that is read within some levels moves with the text. -/
theorem moves_within (levels : Nat) :
    (∀ place, Moves along (·.move along) (expression levels place)
        (expression levels place)) ∧
      (∀ place left, Moves along (·.move along) (operators levels place left)
        (operators levels place (left.move along))) ∧
      Moves along (·.move along) (block levels) (block levels) := by
  induction levels with
  | zero =>
    refine ⟨fun _ => .failTooDeep, fun place left => .get fun s => ?_, .failTooDeep⟩
    rw [ParserState.operator?_move]
    split
    · split
      · exact Moves.failTooDeep s
      · exact Moves.pure rfl s
    · exact Moves.pure rfl s
  | succ levels ih =>
    obtain ⟨hexpression, hoperators, hblock⟩ := ih
    -- operators are looked for by token, so the same ones are found
    refine ⟨fun place => ?_, fun place left => .get fun s => ?_, ?_⟩
    · exact (moves_primary hexpression hblock).bind fun left => hoperators place left
    · rw [ParserState.operator?_move]
      split
      · next op _ =>
        split
        · exact (moves_wrap hexpression hkeeps left op).bind (fun e => hoperators place e) s
        · exact Moves.pure rfl s
      · exact Moves.pure rfl s
    · exact moves_braced (moves_node (hexpression .lowest) hblock)

theorem moves_expression (levels : Nat) (place : Precedence) :
    Moves along (·.move along) (expression levels place) (expression levels place) :=
  (moves_within hkeeps levels).1 place

theorem moves_block (levels : Nat) :
    Moves along (·.move along) (block levels) (block levels) :=
  (moves_within hkeeps levels).2.2

/-! ### Programs -/

theorem moves_nextNode (levels : Nat) :
    Moves along (Option.map (·.move along)) (nextNode levels) (nextNode levels) := by
  refine moves_skipSemicolons.bind fun _ => .get fun s => ?_
  rw [ParserState.lookahead?_move]
  have hnode : Moves along (Option.map (·.move along))
      (node (expression levels .lowest) (block levels) >>= fun x =>
        terminator x .eof >>= fun _ => Pure.pure (some x))
      (node (expression levels .lowest) (block levels) >>= fun x =>
        terminator x .eof >>= fun _ => Pure.pure (some x)) :=
    (moves_node (moves_expression hkeeps levels .lowest) (moves_block hkeeps levels)).bind fun x =>
      (moves_terminator x _).bind fun _ => .pure rfl
  cases s.lookahead? with
  | none => exact Moves.failAtEnd s
  | some x =>
    obtain ⟨token, span⟩ := x
    cases token with
    | eof => exact Moves.pure rfl s
    | _ => exact hnode s

theorem moves_programWithin (levels n : Nat) :
    Moves along (List.map (·.move along)) (programWithin levels n)
      (programWithin levels n) := by
  induction n with
  | zero => exact .pure rfl
  | succ n ih =>
    refine (moves_nextNode hkeeps levels).bind fun next => ?_
    cases next with
    | none => exact .pure rfl
    | some x => exact ih.bind fun _ => .pure rfl

end Levels

end Parse

end Script
