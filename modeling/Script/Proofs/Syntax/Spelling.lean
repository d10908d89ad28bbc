import Mathlib.Data.List.Forall2
import Script.Proofs.Lexeme.Spelling
import Script.Proofs.Syntax.Tokens

/-!
# Canonical texts spell their tokens

The text of a tree is read as the tokens of the tree, if its names are words and its strings can be
read. This is said for a text with any other behind it that no word goes on with, so that it can be
used for the parts of a text.

* `Prints`: a text spells some tokens in front of any other text;
* `Expr.prints`, `Node.prints`, `Block.prints`: the texts of trees;
* `Program.spells`: the text of a program.
-/

namespace Script

open Cursor (inWord)

/-- No word goes on with a text. -/
def Apart (cs : List Char) : Prop :=
  ∀ c ∈ cs.head?, inWord c = false

/-- A text spells some tokens in front of any text that no word goes on with. -/
def Prints (text : String) (tokens : List Token) : Prop :=
  ∀ ⦃rest ts⦄, Spells rest ts → Apart rest → Spells (text.toList ++ rest) (tokens ++ ts)

/-- Tokens that can be written and read again. -/
def Writable (tokens : List Token) : Prop :=
  ∀ token ∈ tokens, token.Regular ∧ token.Plain

theorem writable_append {tokens tokens' : List Token} :
    Writable (tokens ++ tokens') ↔ Writable tokens ∧ Writable tokens' :=
  List.forall_mem_append

theorem writable_cons {token : Token} {tokens : List Token} :
    Writable (token :: tokens) ↔ (token.Regular ∧ token.Plain) ∧ Writable tokens :=
  List.forall_mem_cons

@[simp] theorem writable_parenthesized {tokens : List Token} :
    Writable (parenthesized tokens) ↔ Writable tokens := by
  rw [parenthesized, writable_cons, writable_append]
  constructor
  · exact fun h => h.2.1
  · intro h
    exact ⟨⟨trivial, trivial⟩, h, writable_cons.2 ⟨⟨trivial, trivial⟩, by simp [Writable]⟩⟩

theorem writable_of_intercalate {sign : Symbol} {tokenLists : List (List Token)}
    (h : Writable ([.symbol sign].intercalate tokenLists)) :
    ∀ tokens ∈ tokenLists, Writable tokens :=
  (forall_mem_intercalate ⟨trivial, trivial⟩).1 h

theorem apart_cons {c : Char} (cs : List Char) (hc : inWord c = false) : Apart (c :: cs) := by
  rintro d ⟨⟩
  exact hc

theorem apart_symbol (sign : Symbol) (cs : List Char) : Apart (sign.text.toList ++ cs) := by
  cases sign <;> exact apart_cons _ rfl

theorem apart_space (cs : List Char) : Apart (' ' :: cs) :=
  apart_cons cs rfl

/-- No word goes on with a symbol that a text begins with. -/
theorem apart_opening (opening : Symbol) (text text' : String) (cs : List Char) :
    Apart ((opening.text ++ text ++ text').toList ++ cs) := by
  simp only [String.toList_append, List.append_assoc]
  exact apart_symbol opening _

/-- **A text that is all there is** spells its tokens. -/
theorem Prints.spells {text : String} {tokens : List Token} (h : Prints text tokens) :
    Spells text.toList tokens := by
  have hspells := h .nil (by rintro c ⟨⟩)
  rwa [List.append_nil, List.append_nil] at hspells

/-! ### Single tokens -/

namespace Spells

variable {cs : List Char} {tokens : List Token}

/-- A symbol that no character could be read with. -/
theorem symbol (h : Spells cs tokens) (sign : Symbol)
    (hsign : ∀ c, (Token.symbol sign).joins c = false) :
    Spells (sign.text.toList ++ cs) (.symbol sign :: tokens) :=
  h.literal (.symbol sign) trivial trivial fun c _ => hsign c

/-- A symbol and a space. -/
theorem symbolSpace (h : Spells cs tokens) (sign : Symbol) :
    Spells (sign.text.toList ++ ' ' :: cs) (.symbol sign :: tokens) := by
  refine h.space.literal (.symbol sign) trivial trivial ?_
  rintro c ⟨⟩
  cases sign <;> rfl

theorem keyword (h : Spells cs tokens) (word : Keyword) (hcs : Apart cs) :
    Spells (word.text.toList ++ cs) (.keyword word :: tokens) :=
  h.literal (.keyword word) trivial trivial hcs

theorem name {text : String} (h : Spells cs tokens) (htext : (Token.name text).Regular)
    (hcs : Apart cs) : Spells (text.toList ++ cs) (.name text :: tokens) :=
  h.literal (.name text) htext trivial hcs

end Spells

/-! ### Lists -/

/-- Texts with a separator between them spell their tokens with a symbol between them. -/
theorem prints_joinWith {separator : String} {sign : Symbol}
    (hseparator : separator.toList = sign.text.toList ++ [' '])
    (hsign : ∀ cs, Apart (sign.text.toList ++ cs)) {texts : List String}
    {tokenLists : List (List Token)} (h : List.Forall₂ Prints texts tokenLists) :
    Prints (joinWith separator texts) ([.symbol sign].intercalate tokenLists) := by
  induction h with
  | nil =>
    intro rest ts hrest _
    exact hrest
  | @cons text tokens texts tokenLists htext htexts ih =>
    intro rest ts hrest hapart
    cases htexts with
    | nil =>
      rw [joinWith, String.intercalate_singleton, List.intercalate_singleton]
      exact htext hrest hapart
    | @cons text' tokens' texts tokenLists htext' htexts =>
      have hafter := (ih hrest hapart).symbolSpace sign
      have hall := htext hafter (hsign _)
      rw [joinWith, String.intercalate_cons_cons, List.intercalate_cons_cons]
      simp only [String.toList_append, hseparator, List.append_assoc]
      exact hall

theorem prints_commas {texts : List String} {tokenLists : List (List Token)}
    (h : List.Forall₂ Prints texts tokenLists) :
    Prints (joinWith ", " texts) (commaSeparated tokenLists) :=
  prints_joinWith rfl (apart_symbol .comma) h

theorem prints_semicolons {texts : List String} {tokenLists : List (List Token)}
    (h : List.Forall₂ Prints texts tokenLists) :
    Prints (joinWith "; " texts) (semicolonSeparated tokenLists) :=
  prints_joinWith rfl (apart_symbol .semicolon) h

/-! ### Trees -/

/-- A text begins with a character that no symbol before it could be read with. -/
def BeginsApart (text : String) : Prop :=
  ∃ c cs, text.toList = c :: cs ∧ c ≠ '='

theorem BeginsApart.append {text : String} (h : BeginsApart text) (text' : String) :
    BeginsApart (text ++ text') := by
  obtain ⟨c, cs, hcs, hc⟩ := h
  refine ⟨c, cs ++ text'.toList, ?_, hc⟩
  rw [String.toList_append, hcs, List.cons_append]

theorem beginsApart_of_cons {c : Char} {cs : List Char} (hc : c ≠ '=') :
    BeginsApart (String.ofList (c :: cs)) :=
  ⟨c, cs, String.toList_ofList, hc⟩

theorem Expr.beginsApart : ∀ e : Expr, Writable e.tokens → BeginsApart e.text
  | .name ident, h => by
    obtain ⟨⟨⟨c, cs, hcs, hc⟩, -⟩, -⟩ := (h _ List.mem_cons_self).1
    refine ⟨c, cs, hcs, ?_⟩
    rintro rfl
    cases hc
  -- The digits of a number that is not negative begin with a digit, not with a sign.
  | .integer value _, h => by
    have hvalue : 0 ≤ Int64.toInt value := (h _ List.mem_cons_self).1
    obtain ⟨n, hn⟩ := Int.eq_ofNat_of_zero_le hvalue
    obtain ⟨c, cs, hcs⟩ := List.exists_cons_of_ne_nil (Nat.toDigits_ne_nil (n := n) (b := 10))
    refine ⟨c, cs, ?_, ?_⟩
    · rw [Expr.text, Integer.text, hn, ← hcs]
      exact Nat.toList_repr
    · rintro rfl
      have hdigit := Nat.isDigit_of_mem_toDigits (n := n) (b := 10) (by decide) (by decide)
        (hcs ▸ List.mem_cons_self)
      cases hdigit
  | .boolean true _, h => beginsApart_of_cons (by decide)
  | .boolean false _, h => beginsApart_of_cons (by decide)
  | .string value _, h => beginsApart_of_cons (by decide)
  | .array _ _, h => ((beginsApart_of_cons (by decide)).append _).append _
  | .map _ _, h => ((beginsApart_of_cons (by decide)).append _).append _
  | .unary _ _ _, h => (((beginsApart_of_cons (by decide)).append _).append _).append _
  | .binary _ _ _ _, h =>
    ((((((beginsApart_of_cons (by decide)).append _).append _).append _).append _).append
      _).append _
  | .assign _ _ _, h =>
    ((((beginsApart_of_cons (by decide)).append _).append _).append _).append _
  | .index _ _ _, h =>
    ((((beginsApart_of_cons (by decide)).append _).append _).append _).append _
  | .function _ _ _, h =>
    (((beginsApart_of_cons (by decide)).append _).append _).append _
  | .call callee arguments _, h => by
    rw [Expr.tokens, writable_append] at h
    rw [Expr.text]
    exact (((callee.beginsApart h.1).append _).append _).append _
termination_by structural e => e

theorem Prints.congr {text text' : String} {tokens : List Token} (h : Prints text tokens)
    (htext : text.toList = text'.toList) : Prints text' tokens := by
  intro rest ts hrest hapart
  rw [← htext]
  exact h hrest hapart

/-- A text between two symbols spells its tokens between them. -/
theorem Prints.enclosed {text : String} {tokens : List Token} (h : Prints text tokens)
    (opening closing : Symbol) (hopening : ∀ c, (Token.symbol opening).joins c = false)
    (hclosing : ∀ c, (Token.symbol closing).joins c = false) :
    Prints (opening.text ++ text ++ closing.text)
      (.symbol opening :: (tokens ++ [.symbol closing])) := by
  intro rest ts hrest _
  have hall := (h (hrest.symbol closing hclosing) (apart_symbol _ _)).symbol opening hopening
  simp only [String.toList_append, List.append_assoc, List.cons_append]
  exact hall

theorem Prints.parenthesized {text : String} {tokens : List Token} (h : Prints text tokens) :
    Prints ("(" ++ text ++ ")") (Script.parenthesized tokens) :=
  h.enclosed .leftParen .rightParen (fun _ => rfl) fun _ => rfl

/-- A text after another whose end no word goes on with. -/
theorem Prints.append {text text' : String} {tokens tokens' : List Token} (h : Prints text tokens)
    (h' : Prints text' tokens') (hapart : ∀ cs, Apart (text'.toList ++ cs)) :
    Prints (text ++ text') (tokens ++ tokens') := by
  intro rest ts hrest hrest'
  have hall := h (h' hrest hrest') (hapart rest)
  rw [String.toList_append, List.append_assoc, List.append_assoc]
  exact hall

/-- An operator between two texts, with spaces around it. -/
theorem Prints.infixed {left right : String} {tokens tokens' : List Token}
    (hleft : Prints left tokens) (sign : Symbol) (hright : Prints right tokens') :
    Prints (left ++ " " ++ sign.text ++ " " ++ right) (tokens ++ .symbol sign :: tokens') := by
  intro rest ts hrest hapart
  have hsign := (hright hrest hapart).symbolSpace sign
  have hall := hleft hsign.space (apart_space _)
  simp only [String.toList_append, List.append_assoc]
  exact hall

/-- A pair of a map. -/
theorem Prints.paired {key value : String} {tokens tokens' : List Token} (hkey : Prints key tokens)
    (hvalue : Prints value tokens') :
    Prints (key ++ ": " ++ value) (tokens ++ .symbol .colon :: tokens') := by
  intro rest ts hrest hapart
  have hcolon := (hvalue hrest hapart).symbolSpace .colon
  have hall := hkey hcolon (apart_symbol _ _)
  simp only [String.toList_append, List.append_assoc]
  exact hall

/-- A sign in front of a text that no sign is read with. -/
theorem Prints.signed {text : String} {tokens : List Token} (op : UnaryOp) (h : Prints text tokens)
    (hbegins : BeginsApart text) :
    Prints (op.symbol.text ++ text) (.symbol op.symbol :: tokens) := by
  intro rest ts hrest hapart
  obtain ⟨c, cs, hcs, hc⟩ := hbegins
  have hall := (h hrest hapart).literal (.symbol op.symbol) trivial trivial (by
    rw [hcs]
    rintro d ⟨⟩
    cases op with
    | plus => rfl
    | minus => rfl
    | not => exact beq_eq_false_iff_ne.2 hc)
  rw [String.toList_append, List.append_assoc]
  exact hall

/-- The text of a name. -/
theorem prints_name {text : String} (h : (Token.name text).Regular) :
    Prints text [.name text] :=
  fun _ _ hrest hapart => hrest.name h hapart

theorem prints_names : ∀ parameters : List Ident,
    (∀ tokens ∈ parameters.map ([.name ·.name]), Writable tokens) →
    List.Forall₂ Prints (parameters.map (·.name)) (parameters.map ([.name ·.name]))
  | [], _ => .nil
  | _ :: rest, h => .cons (prints_name (h _ List.mem_cons_self _ List.mem_cons_self).1)
    (prints_names rest fun tokens htokens => h tokens (List.mem_cons_of_mem _ htokens))

mutual

/-- **The text of an expression spells its tokens.** -/
theorem Expr.prints : ∀ e : Expr, Writable e.tokens → Prints e.text e.tokens
  | .name ident, h => prints_name (h _ List.mem_cons_self).1
  | .integer value _, h => by
    intro rest ts hrest hapart
    -- no word goes on with the text behind, so no number does
    refine hrest.literal (.integer value) (h _ List.mem_cons_self).1 trivial fun c hc => ?_
    have hword := hapart c hc
    rw [← Bool.not_eq_true, inWord_iff] at hword
    exact Bool.eq_false_iff.2 fun hdigit => hword (.inr hdigit)
  | .boolean true _, _ => fun _ _ hrest hapart => hrest.keyword .trueWord hapart
  | .boolean false _, _ => fun _ _ hrest hapart => hrest.keyword .falseWord hapart
  | .string value _, h => fun _ _ hrest _ =>
    hrest.literal (.string value) trivial (h _ List.mem_cons_self).2 fun _ _ => rfl
  | .array elements _, h => by
    rw [Expr.tokens, writable_cons, writable_append] at h
    have helements := Expr.prints_all elements (writable_of_intercalate h.2.1)
    exact (prints_commas helements).enclosed .leftBracket .rightBracket (fun _ => rfl) fun _ => rfl
  | .map pairs _, h => by
    rw [Expr.tokens, writable_cons, writable_append] at h
    have hpairs := Expr.prints_pairs pairs (writable_of_intercalate h.2.1)
    exact (prints_commas hpairs).enclosed .leftBrace .rightBrace (fun _ => rfl) fun _ => rfl
  | .unary op operand _, h => by
    rw [Expr.tokens, writable_parenthesized, writable_cons] at h
    have hall := ((operand.prints h.2).signed op (operand.beginsApart h.2)).parenthesized
    rw [← String.append_assoc] at hall
    exact hall
  | .binary op left right _, h => by
    rw [Expr.tokens, writable_parenthesized, writable_append, writable_cons] at h
    have hall := ((left.prints h.1).infixed op.symbol (right.prints h.2.2)).parenthesized
    simp only [← String.append_assoc] at hall
    exact hall
  | .assign target value _, h => by
    rw [Expr.tokens, writable_parenthesized, writable_append, writable_cons] at h
    have hall := ((target.prints h.1).infixed .assign (value.prints h.2.2)).parenthesized
    exact hall.congr (by simp only [Expr.text, String.toList_append, List.append_assoc]; rfl)
  | .index target key _, h => by
    rw [Expr.tokens, writable_parenthesized, writable_append, writable_cons, writable_append] at h
    have hkey := (key.prints h.2.2.1).enclosed .leftBracket .rightBracket (fun _ => rfl)
      fun _ => rfl
    have hall := ((target.prints h.1).append hkey (apart_opening _ _ _)).parenthesized
    exact hall.congr (by simp only [Expr.text, String.toList_append, List.append_assoc]; rfl)
  | .function parameters body _, h => by
    rw [Expr.tokens, writable_cons, writable_append, writable_parenthesized] at h
    have hparameters := (prints_commas (prints_names parameters
      (writable_of_intercalate h.2.1))).parenthesized
    intro rest ts hrest hapart
    have hbody := (body.prints h.2.2 hrest hapart).space
    have hall := (hparameters hbody (apart_space _)).keyword .functionWord
      (apart_opening .leftParen _ _ _)
    rw [Expr.text, Expr.tokens, List.cons_append, List.append_assoc]
    simp only [String.toList_append, List.append_assoc] at hall ⊢
    exact hall
  | .call callee arguments _, h => by
    rw [Expr.tokens, writable_append, writable_parenthesized] at h
    have harguments := Expr.prints_all arguments (writable_of_intercalate h.2)
    have hlist := (prints_commas harguments).parenthesized
    have hall := (callee.prints h.1).append hlist (apart_opening .leftParen _ _)
    simp only [← String.append_assoc] at hall
    exact hall
termination_by structural e => e

theorem Expr.prints_all : ∀ es : List Expr, (∀ tokens ∈ Expr.tokenLists es, Writable tokens) →
    List.Forall₂ Prints (Expr.texts es) (Expr.tokenLists es)
  | [], _ => .nil
  | e :: rest, h => .cons (e.prints (h _ List.mem_cons_self))
    (Expr.prints_all rest fun tokens htokens => h tokens (List.mem_cons_of_mem _ htokens))
termination_by structural es => es

theorem Expr.prints_pairs : ∀ pairs : List (Expr × Expr),
    (∀ tokens ∈ Expr.pairTokenLists pairs, Writable tokens) →
    List.Forall₂ Prints (Expr.pairTexts pairs) (Expr.pairTokenLists pairs)
  | [], _ => .nil
  | (key, value) :: rest, h => by
    have hpair := h _ List.mem_cons_self
    rw [writable_append, writable_cons] at hpair
    exact .cons ((key.prints hpair.1).paired (value.prints hpair.2.2))
      (Expr.prints_pairs rest fun tokens htokens => h tokens (List.mem_cons_of_mem _ htokens))
termination_by structural pairs => pairs

/-- **The text of a node spells its tokens.** -/
theorem Node.prints : ∀ node : Node, Writable node.tokens → Prints node.text node.tokens
  -- from the end of the text to its beginning, since what is spelled is spelled in front of a text
  | .binding ident value _, h => by
    rw [Node.tokens, writable_cons, writable_cons, writable_cons] at h
    intro rest ts hrest hapart
    have hvalue := (value.prints h.2.2.2 hrest hapart).symbolSpace .assign
    have hname := prints_name h.2.1.1 hvalue.space (apart_space _)
    have hall := hname.space.keyword .letWord (apart_space _)
    rw [Node.text]
    simp only [String.toList_append, List.append_assoc]
    exact hall
  | .returning none _, _ => fun _ _ hrest hapart => hrest.keyword .returnWord hapart
  | .returning (some value) _, h => by
    rw [Node.tokens, writable_cons] at h
    intro rest ts hrest hapart
    have hall := (value.prints h.2 hrest hapart).space.keyword .returnWord (apart_space _)
    rw [Node.text, String.toList_append, List.append_assoc]
    exact hall
  | .conditional condition consequence none _, h => by
    rw [Node.tokens, writable_cons, writable_append] at h
    intro rest ts hrest hapart
    have hblock := (consequence.prints h.2.2 hrest hapart).space
    have hcondition := condition.prints h.2.1 hblock (apart_space _)
    have hall := hcondition.space.keyword .ifWord (apart_space _)
    rw [Node.text, Node.tokens, List.cons_append, List.append_assoc]
    simp only [String.toList_append, List.append_assoc]
    exact hall
  | .conditional condition consequence (some alternative) _, h => by
    rw [Node.tokens, writable_cons, writable_append, writable_append, writable_cons] at h
    intro rest ts hrest hapart
    have halternative := (alternative.prints h.2.2.2.2 hrest hapart).space
    have helse := halternative.keyword .elseWord (apart_space _)
    have hblock := (consequence.prints h.2.2.1 helse.space (apart_space _)).space
    have hcondition := condition.prints h.2.1 hblock (apart_space _)
    have hall := hcondition.space.keyword .ifWord (apart_space _)
    rw [Node.text, Node.tokens]
    simp only [String.toList_append, List.append_assoc, List.cons_append]
    exact hall
  | .expression value, h => value.prints h
termination_by structural node => node

theorem Node.prints_all : ∀ nodes : List Node,
    (∀ tokens ∈ Node.tokenLists nodes, Writable tokens) →
    List.Forall₂ Prints (Node.texts nodes) (Node.tokenLists nodes)
  | [], _ => .nil
  | node :: rest, h => .cons (node.prints (h _ List.mem_cons_self))
    (Node.prints_all rest fun tokens htokens => h tokens (List.mem_cons_of_mem _ htokens))
termination_by structural nodes => nodes

/-- **The text of a block spells its tokens.** -/
theorem Block.prints : ∀ block : Block, Writable block.tokens → Prints block.text block.tokens
  | ⟨[], _⟩, _ => by
    intro rest ts hrest _
    have hall := (hrest.symbol .rightBrace fun _ => rfl).symbolSpace .leftBrace
    rw [Block.text, Block.tokens, Node.tokenLists]
    exact hall
  | ⟨node :: nodes, _⟩, h => by
    rw [Block.tokens, writable_cons, writable_append] at h
    have hnodes := prints_semicolons
      (Node.prints_all (node :: nodes) (writable_of_intercalate h.2.1))
    intro rest ts hrest _
    have hclose := (hrest.symbol .rightBrace fun _ => rfl).space
    have hall := (hnodes hclose (apart_space _)).symbolSpace .leftBrace
    rw [Block.text, Block.tokens, List.cons_append, List.append_assoc]
    simp only [String.toList_append, List.append_assoc]
    exact hall
termination_by structural block => block

end

/-- **The canonical text of a program spells its tokens.** -/
theorem Program.spells (program : Program) (h : Writable program.tokens) :
    Spells program.text.toList program.tokens :=
  (prints_semicolons (Node.prints_all program.nodes (writable_of_intercalate h))).spells

end Script
