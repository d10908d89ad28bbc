import Script.Lexeme.Stream
import Script.Syntax

/-!
# The grammar of the language

Which lists of lexemes are which phrases, and which tree each phrase stands for, said without regard
to how a text is read. Expressions are layered: a *tier* holds the operators of one strength, and
its operands come from the tiers above it. An assignment groups to the right and may have any
comparison on its left; the other operators between operands group to the left. A call and an index
take what stands before them together with all calls and indices in between.

* `Grammar.Derives`: the lexemes of each kind of phrase, with their tree.
* `Grammar.IsProgram`: the lexemes of a whole program.
-/

namespace Script.Grammar

/-! ### Phrases -/

/-- The tiers of expressions, from the weakest operators to those that need none. -/
inductive Tier where
  | assignment
  | comparison
  | sum
  | product
  | signed
  | applied
  | primary
deriving DecidableEq, Repr

/-- The next tier. -/
def Tier.next : Tier → Tier
  | assignment => comparison
  | comparison => sum
  | sum => product
  | product => signed
  | signed => applied
  | applied => primary
  | primary => primary

/-- The tier of an operator between its operands. -/
def tierOf : BinaryOp → Tier
  | .add => .sum
  | .subtract => .sum
  | .multiply => .product
  | .divide => .product
  | .equal => .comparison
  | .notEqual => .comparison
  | .less => .comparison
  | .greater => .comparison

/-- What stands between commas: an expression, a pair of a map, or a parameter. -/
inductive Item where
  | expression
  | pair
  | parameter

/-- The trees of an item. -/
abbrev Item.Tree : Item → Type
  | expression => Expr
  | pair => Expr × Expr
  | parameter => Ident

/-- The kinds of phrases. Items may be none at all; further items each follow a comma. A body is
what stands in a program or between the braces of a block. -/
inductive Phrase where
  | expression (tier : Tier)
  | item (kind : Item)
  | items (kind : Item)
  | furtherItems (kind : Item)
  | block
  | body
  | node
  | conditional
  | alternative

/-- The trees of a phrase. -/
abbrev Phrase.Tree : Phrase → Type
  | expression _ => Expr
  | item kind => kind.Tree
  | items kind => List kind.Tree
  | furtherItems kind => List kind.Tree
  | block => Block
  | body => List Node
  | node => Node
  | conditional => Node
  | alternative => Block

/-! ### Rules -/

/-- **The rules of the language.** `Derives phrase lexemes tree` says that the lexemes are a phrase
of that kind, which stands for the tree. -/
inductive Derives : (phrase : Phrase) → List Lexeme → phrase.Tree → Prop where
  -- primary expressions
  | name {text s} : Derives (.expression .primary) [⟨.name text, s⟩] (.name ⟨text, s⟩)
  | integer {value s} : Derives (.expression .primary) [⟨.integer value, s⟩] (.integer value s)
  | string {value s} : Derives (.expression .primary) [⟨.string value, s⟩] (.string value s)
  | trueLiteral {s} : Derives (.expression .primary) [⟨.keyword .trueWord, s⟩] (.boolean true s)
  | falseLiteral {s} : Derives (.expression .primary) [⟨.keyword .falseWord, s⟩] (.boolean false s)
  | group {l e o c} : Derives (.expression .assignment) l e →
      Derives (.expression .primary)
        (⟨.symbol .leftParen, o⟩ :: (l ++ [⟨.symbol .rightParen, c⟩])) e
  | array {l es o c} : Derives (.items .expression) l es →
      Derives (.expression .primary)
        (⟨.symbol .leftBracket, o⟩ :: (l ++ [⟨.symbol .rightBracket, c⟩]))
        (.array es ⟨o.start, c.stop⟩)
  | map {l ps o c} : Derives (.items .pair) l ps →
      Derives (.expression .primary)
        (⟨.symbol .leftBrace, o⟩ :: (l ++ [⟨.symbol .rightBrace, c⟩]))
        (.map ps ⟨o.start, c.stop⟩)
  | function {l l' ps body f o c} : Derives (.items .parameter) l ps → Derives .block l' body →
      Derives (.expression .primary)
        (⟨.keyword .functionWord, f⟩ :: ⟨.symbol .leftParen, o⟩ ::
          (l ++ ⟨.symbol .rightParen, c⟩ :: l'))
        (.function ps body ⟨f.start, body.span.stop⟩)
  -- operators
  | call {l l' callee es o c} : Derives (.expression .applied) l callee →
      Derives (.items .expression) l' es →
      Derives (.expression .applied)
        (l ++ ⟨.symbol .leftParen, o⟩ :: (l' ++ [⟨.symbol .rightParen, c⟩]))
        (.call callee es ⟨callee.span.start, c.stop⟩)
  | index {l l' target key o c} : Derives (.expression .applied) l target →
      Derives (.expression .assignment) l' key →
      Derives (.expression .applied)
        (l ++ ⟨.symbol .leftBracket, o⟩ :: (l' ++ [⟨.symbol .rightBracket, c⟩]))
        (.index target key ⟨target.span.start, c.stop⟩)
  | unary {op l e s} : Derives (.expression .signed) l e →
      Derives (.expression .signed) (⟨.symbol op.symbol, s⟩ :: l)
        (.unary op e ⟨s.start, e.span.stop⟩)
  | binary {op l l' a b s} : Derives (.expression (tierOf op)) l a →
      Derives (.expression (tierOf op).next) l' b →
      Derives (.expression (tierOf op)) (l ++ ⟨.symbol op.symbol, s⟩ :: l')
        (.binary op a b (a.span.hull b.span))
  | assign {l l' a b s} : Derives (.expression .comparison) l a →
      Derives (.expression .assignment) l' b →
      Derives (.expression .assignment) (l ++ ⟨.symbol .assign, s⟩ :: l')
        (.assign a b (a.span.hull b.span))
  | lift {tier l e} : Derives (.expression (Tier.next tier)) l e → Derives (.expression tier) l e
  -- lists
  | expressionItem {l e} : Derives (.expression .assignment) l e →
      Derives (.item .expression) l e
  | pairItem {l l' k v s} : Derives (.expression .assignment) l k →
      Derives (.expression .assignment) l' v →
      Derives (.item .pair) (l ++ ⟨.symbol .colon, s⟩ :: l') (k, v)
  | parameterItem {text s} : Derives (.item .parameter) [⟨.name text, s⟩] ⟨text, s⟩
  | noItems {kind} : Derives (.items kind) [] []
  | items {kind l l' x xs} : Derives (.item kind) l x → Derives (.furtherItems kind) l' xs →
      Derives (.items kind) (l ++ l') (x :: xs)
  | noFurtherItems {kind} : Derives (.furtherItems kind) [] []
  | furtherItems {kind l l' x xs s} : Derives (.item kind) l x →
      Derives (.furtherItems kind) l' xs →
      Derives (.furtherItems kind) (⟨.symbol .comma, s⟩ :: (l ++ l')) (x :: xs)
  -- nodes
  | binding {text l e o i a} : Derives (.expression .assignment) l e →
      Derives .node
        (⟨.keyword .letWord, o⟩ :: ⟨.name text, i⟩ :: ⟨.symbol .assign, a⟩ :: l)
        (.binding ⟨text, i⟩ e ⟨o.start, e.span.stop⟩)
  | returningNothing {o} : Derives .node [⟨.keyword .returnWord, o⟩] (.returning none o)
  | returning {l e o} : Derives (.expression .assignment) l e →
      Derives .node (⟨.keyword .returnWord, o⟩ :: l)
        (.returning (some e) ⟨o.start, e.span.stop⟩)
  | expressionNode {l e} : Derives (.expression .assignment) l e →
      Derives .node l (.expression e)
  | conditionalNode {l n} : Derives .conditional l n → Derives .node l n
  | conditional {l l' c b o} : Derives (.expression .assignment) l c → Derives .block l' b →
      Derives .conditional (⟨.keyword .ifWord, o⟩ :: (l ++ l'))
        (.conditional c b none ⟨o.start, b.span.stop⟩)
  | conditionalElse {l l' l'' c b a o w} : Derives (.expression .assignment) l c →
      Derives .block l' b → Derives .alternative l'' a →
      Derives .conditional
        (⟨.keyword .ifWord, o⟩ :: (l ++ (l' ++ ⟨.keyword .elseWord, w⟩ :: l'')))
        (.conditional c b (some a) ⟨o.start, a.span.stop⟩)
  | alternativeBlock {l b} : Derives .block l b → Derives .alternative l b
  | alternativeConditional {l n} : Derives .conditional l n →
      Derives .alternative l ⟨[n], n.span⟩
  -- bodies and blocks
  | emptyBody : Derives .body [] []
  | semicolon {l ns s} : Derives .body l ns → Derives .body (⟨.symbol .semicolon, s⟩ :: l) ns
  | lastNode {l n} : Derives .node l n → Derives .body l [n]
  | terminatedNode {l l' n ns s} : Derives .node l n → Derives .body l' ns →
      Derives .body (l ++ ⟨.symbol .semicolon, s⟩ :: l') (n :: ns)
  | conditionalInBody {l l' n ns} : Derives .conditional l n → Derives .body l' ns →
      Derives .body (l ++ l') (n :: ns)
  | block {l ns o c} : Derives .body l ns →
      Derives .block (⟨.symbol .leftBrace, o⟩ :: (l ++ [⟨.symbol .rightBrace, c⟩]))
        ⟨ns, o.start, c.stop⟩

/-! ### First lexemes -/

/-- The tokens that an expression may begin with. -/
def beginsExpression : Token → Bool
  | .name _ => true
  | .integer _ => true
  | .string _ => true
  | .keyword word => word == .trueWord || word == .falseWord || word == .functionWord
  | .symbol sign => sign == .leftParen || sign == .leftBracket || sign == .leftBrace ||
      sign == .plus || sign == .minus || sign == .bang
  | _ => false

/-- The tokens that a node may begin with. -/
def beginsNode (token : Token) : Bool :=
  beginsExpression token || token == .keyword .letWord || token == .keyword .returnWord ||
    token == .keyword .ifWord

namespace Phrase

/-- The tokens that a phrase may begin with. -/
def begins : Phrase → Token → Bool
  | expression _, token => beginsExpression token
  | item _, token => beginsExpression token
  | items _, token => beginsExpression token
  | furtherItems _, token => token == .symbol .comma
  | block, token => token == .symbol .leftBrace
  | body, token => beginsNode token || token == .symbol .semicolon
  | node, token => beginsNode token
  | conditional, token => token == .keyword .ifWord
  | alternative, token => token == .keyword .ifWord || token == .symbol .leftBrace

/-- The phrases that may be without lexemes. -/
def mayBeEmpty : Phrase → Bool
  | items _ => true
  | furtherItems _ => true
  | body => true
  | _ => false

/-- What the lexemes of a phrase begin with. -/
def BeginsOf (phrase : Phrase) : List Lexeme → Prop
  | [] => phrase.mayBeEmpty = true
  | x :: _ => phrase.begins x.token = true

variable {phrase phrase' : Phrase} {l : List Lexeme}

theorem BeginsOf.append (l' : List Lexeme) (h : phrase.BeginsOf l) (hne : phrase.mayBeEmpty = false)
    (hbegins : ∀ token, phrase.begins token = true → phrase'.begins token = true) :
    phrase'.BeginsOf (l ++ l') := by
  cases l with
  | nil =>
    rw [BeginsOf, hne] at h
    cases h
  | cons x l => exact hbegins _ h

theorem BeginsOf.imp (h : phrase.BeginsOf l)
    (hempty : phrase.mayBeEmpty = true → phrase'.mayBeEmpty = true)
    (hbegins : ∀ token, phrase.begins token = true → phrase'.begins token = true) :
    phrase'.BeginsOf l := by
  cases l with
  | nil => exact hempty h
  | cons x l => exact hbegins _ h

theorem BeginsOf.exists_cons (h : phrase.BeginsOf l) (hne : phrase.mayBeEmpty = false) :
    ∃ x rest, l = x :: rest ∧ phrase.begins x.token = true := by
  cases l with
  | nil =>
    rw [BeginsOf, hne] at h
    cases h
  | cons x l => exact ⟨x, l, rfl, h⟩

theorem begins_node_of_expression (token : Token) (h : beginsExpression token = true) :
    node.begins token = true := by
  rw [begins, beginsNode, h]
  rfl

theorem begins_node_of_conditional (token : Token) (h : conditional.begins token = true) :
    node.begins token = true := by
  rw [begins, beginsNode, show (token == .keyword .ifWord) = true from h, Bool.or_true]

theorem begins_body_of_node (token : Token) (h : node.begins token = true) :
    body.begins token = true := by
  rw [begins, show beginsNode token = true from h, Bool.true_or]

end Phrase

open Phrase in
/-- A phrase begins with one of its tokens. -/
theorem Derives.begins {phrase : Phrase} {l : List Lexeme} {t : phrase.Tree}
    (h : Derives phrase l t) : phrase.BeginsOf l := by
  induction h with
  | name | integer | string | trueLiteral | falseLiteral => rfl
  | group | array | map | function => rfl
  | call _ _ ih => exact ih.append _ rfl fun _ h => h
  | index _ _ ih => exact ih.append _ rfl fun _ h => h
  | @unary op => cases op <;> rfl
  | binary _ _ ih => exact ih.append _ rfl fun _ h => h
  | assign _ _ ih => exact ih.append _ rfl fun _ h => h
  | lift _ ih => exact ih
  | expressionItem _ ih => exact ih
  | pairItem _ _ ih => exact ih.append _ rfl fun _ h => h
  | parameterItem => rfl
  | noItems | noFurtherItems | furtherItems => rfl
  | items _ _ ih => exact ih.append _ rfl fun _ h => h
  | binding | returningNothing | returning | conditional | conditionalElse => rfl
  | expressionNode _ ih => exact ih.imp (fun h => by cases h) begins_node_of_expression
  | conditionalNode _ ih => exact ih.imp (fun h => by cases h) begins_node_of_conditional
  | alternativeBlock _ ih =>
    exact ih.imp (fun h => by cases h) fun _ h => Bool.or_eq_true_iff.2 (.inr h)
  | alternativeConditional _ ih =>
    exact ih.imp (fun h => by cases h) fun _ h => Bool.or_eq_true_iff.2 (.inl h)
  | emptyBody | semicolon | block => rfl
  | lastNode _ ih => exact ih.imp (fun h => by cases h) begins_body_of_node
  | terminatedNode _ _ ih => exact ih.append _ rfl begins_body_of_node
  | conditionalInBody _ _ ih =>
    exact ih.append _ rfl fun _ h => begins_body_of_node _ (begins_node_of_conditional _ h)

/-- A body without lexemes is without nodes. -/
theorem eq_nil_of_derives_nil {ns : List Node} (h : Derives .body [] ns) : ns = [] := by
  generalize hl : ([] : List Lexeme) = l at h
  cases h with
  | emptyBody => rfl
  | semicolon h => cases hl
  | lastNode h =>
    subst hl
    cases h.begins
  | terminatedNode h h' => simp at hl
  | conditionalInBody h h' =>
    obtain ⟨rfl, rfl⟩ := List.append_eq_nil_iff.1 hl.symm
    cases h.begins

theorem Derives.endsWithBlock {l : List Lexeme} {n : Node} (h : Derives .conditional l n) :
    n.endsWithBlock = Bool.true := by
  cases h <;> rfl

/-- A node that ends with a block is an `if`. -/
theorem Derives.conditional_of_endsWithBlock {l : List Lexeme} {n : Node} (h : Derives .node l n)
    (hn : n.endsWithBlock = true) : Derives .conditional l n := by
  cases h with
  | conditionalNode h => exact h
  | _ => cases hn

/-! ### Programs -/

/-- Where the last of some lexemes ends; where there is none, a given offset. -/
def stopAfter (stop : UInt32) : List Lexeme → UInt32
  | [] => stop
  | lexeme :: rest => stopAfter lexeme.span.stop rest

/-- A whole program: the lexemes of a text whose end is at `offset` are a body, and the span of
the program reaches from the first to the last of them. -/
def IsProgram (lexemes : List Lexeme) (offset : UInt32) (program : Program) : Prop :=
  let start := (lexemes.head?.map (·.span.start)).getD offset
  Derives .body lexemes program.nodes ∧
    program.span = ⟨start, max (stopAfter 0 lexemes) start⟩

end Script.Grammar
