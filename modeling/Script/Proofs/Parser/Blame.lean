import Script.Proofs.Lexeme.Order
import Script.Proofs.Parser.Locality

/-!
# What an error of syntax is blamed on

A parser that fails blames what it has before it at that moment. If the text cannot be read on, this
is told with the lexical error or as an unexpected end; every other error is told at the lookahead,
or right after the last lexeme that was taken. So it is told in front of the lexical error that the
text may have further on.

* `ParserState.Blames`: the errors that a state gives reason for;
* `Parse.founded_program`: a program fails only with such an error;
* `Program.marks_span_of_parse`: the span of an error can be marked in the text;
* `Program.lexical_or_before_of_parse`: which errors a text with a lexical error can have.
-/

namespace Script

open Grammar (stopAfter)

/-- A cause that lies in the lexemes, not in how they end. -/
def ParseCause.InLexemes : ParseCause → Prop
  | unexpectedEnd => False
  | lexical _ => False
  | _ => True

/-- **What a state gives reason for**: the error of a text that ends here, one at the lookahead, or
one right after the last lexeme that was taken. -/
inductive ParserState.Blames (s : ParserState) (error : ParseError) : Prop where
  | atEnd (h : error = s.endError)
  | lookahead {x : Lexeme} (hx : s.lookahead? = some x) (hspan : error.span = x.span)
      (hcause : error.cause.InLexemes)
  | lastStop (hspan : error.span = .point s.lastStop) (hcause : error.cause.InLexemes)

namespace ParserState

variable {s : ParserState} {x : Lexeme} {rest : List Lexeme} {error : ParseError}

theorem blames_of_lexemes (hs : s.lexemes = x :: rest) (hspan : error.span = x.span)
    (hcause : error.cause.InLexemes) : s.Blames error := by
  have hx : s.lookahead? = some x := by rw [lookahead?, hs]
  exact .lookahead hx hspan hcause

theorem blames_depthError (s : ParserState) : s.Blames s.depthError := by
  rw [depthError]
  split
  · next x hx => exact .lookahead hx rfl trivial
  · exact .lastStop rfl trivial

end ParserState

namespace Parse

variable {α β : Type} {p : Parse α} {f : α → Parse β}

/-- A parser fails only with errors that its state gives reason for. -/
def Founded (p : Parse α) : Prop :=
  ∀ s error s', p s = .error error s' → s'.Blames error

namespace Founded

theorem bind (hp : Founded p) (hf : ∀ a, Founded (f a)) : Founded (p >>= f) := by
  intro s error s' h
  cases ha : p s with
  | ok a s₁ =>
    rw [bind_ok ha] at h
    exact hf a s₁ error s' h
  | error error' s₁ =>
    rw [bind_error ha] at h
    cases h
    exact hp s error s' ha

theorem pure (a : α) : Founded (Pure.pure a : Parse α) := by
  rintro s error s' ⟨⟩

theorem advance : Founded Parse.advance := by
  rintro s error s' ⟨⟩

theorem comes (token : Token) : Founded (Parse.comes token) := by
  rintro s error s' ⟨⟩

theorem failAtEnd : Founded (Parse.failAtEnd : Parse α) := by
  rintro s error s' ⟨⟩
  exact .atEnd rfl

theorem failTooDeep : Founded (Parse.failTooDeep : Parse α) := by
  rintro s error s' ⟨⟩
  exact s.blames_depthError

/-- After a look at the state, whatever it is. -/
theorem get {f : ParserState → Parse α} (hf : ∀ s, Founded (f s)) :
    Founded (MonadState.get >>= f) :=
  fun s => hf s s

end Founded

/-! ### Single tokens and lists -/

theorem founded_expect (token : Token) : Founded (expect token) := by
  intro s error s' h
  rw [expect, get_bind] at h
  cases hs : s.lexemes with
  | nil =>
    rw [hs] at h
    exact Founded.failAtEnd s error s' h
  | cons x rest =>
    rw [hs] at h
    dsimp only at h
    split at h
    · cases h
    · cases h
      exact ParserState.blames_of_lexemes hs rfl trivial

theorem founded_expectName : Founded expectName := by
  intro s error s' h
  rw [expectName, get_bind] at h
  cases hs : s.lexemes with
  | nil =>
    rw [hs] at h
    exact Founded.failAtEnd s error s' h
  | cons x rest =>
    rw [hs] at h
    obtain ⟨token, span⟩ := x
    cases token with
    | name text => cases h
    | _ =>
      cases h
      exact ParserState.blames_of_lexemes hs rfl trivial

theorem founded_skipSemicolons : Founded skipSemicolons := by
  have hwithin (n : Nat) : Founded (skipSemicolonsWithin n) := by
    induction n with
    | zero => exact .pure ()
    | succ n ih =>
      refine (Founded.comes _).bind fun semicolon => ?_
      split
      · exact Founded.advance.bind fun _ => ih
      · exact .pure ()
  exact .get fun s => hwithin s.lexemes.length

section Lists

variable {item : Parse α} (hitem : Founded item)
include hitem

theorem founded_afterCommasWithin (n : Nat) : Founded (afterCommasWithin item n) := by
  induction n with
  | zero => exact .pure []
  | succ n ih =>
    refine (Founded.comes _).bind fun comma => ?_
    split
    · refine Founded.advance.bind fun _ => hitem.bind fun x => ?_
      exact ih.bind fun xs => .pure (x :: xs)
    · exact .pure []

theorem founded_list (closing : Symbol) : Founded (list item closing) := by
  refine (Founded.comes _).bind fun closes => ?_
  split
  · exact (founded_expect _).bind fun close => .pure _
  · have hafter : Founded (afterCommas item) :=
      .get fun s => founded_afterCommasWithin hitem s.lexemes.length
    refine hitem.bind fun x => hafter.bind fun xs => ?_
    exact (founded_expect _).bind fun close => .pure _

end Lists

/-! ### Pieces of expressions -/

section Pieces

variable {expression : Precedence → Parse Expr} {block : Parse Block}
  (hexp : ∀ place, Founded (expression place)) (hblock : Founded block)

include hexp in
theorem founded_pair : Founded (pair (expression .lowest)) :=
  (hexp _).bind fun _ => (founded_expect _).bind fun _ => (hexp _).bind fun _ => .pure _

include hexp in
theorem founded_unary (op : UnaryOp) (start : UInt32) : Founded (unary expression op start) :=
  (hexp _).bind fun _ => .pure _

include hexp hblock in
/-- An expression begins with its lexeme, or this lexeme is the one to blame. -/
theorem founded_primary : Founded (primary expression block) := by
  intro s error s' h
  rw [primary, get_bind] at h
  cases hs : s.lexemes with
  | nil =>
    rw [hs] at h
    exact Founded.failAtEnd s error s' h
  | cons x rest =>
    rw [hs] at h
    obtain ⟨token, span⟩ := x
    -- of a literal or a name nothing but its lexeme is read
    have hatom (e : Expr) : Founded (advance >>= fun _ => Pure.pure e) :=
      Founded.advance.bind fun _ => .pure e
    have hthrow {token : Token} (h : (throw ⟨.expectedExpression token, span⟩ : Parse Expr) s =
        .error error s') : s'.Blames error := by
      cases h
      exact ParserState.blames_of_lexemes hs rfl trivial
    unfold primaryAt at h
    dsimp only at h
    cases token with
    | name text => exact hatom _ s error s' h
    | integer value => exact hatom _ s error s' h
    | string value => exact hatom _ s error s' h
    | comment => exact hthrow h
    | eof => exact hthrow h
    | keyword word =>
      cases word with
      | trueWord => exact hatom _ s error s' h
      | falseWord => exact hatom _ s error s' h
      | functionWord =>
        have hfunction : Founded (function block span.start) :=
          (founded_expect _).bind fun _ => (founded_list founded_expectName _).bind fun _ =>
            hblock.bind fun _ => .pure _
        exact Founded.advance.bind (fun _ => hfunction) s error s' h
      | _ => exact hthrow h
    | symbol sign =>
      cases sign with
      | leftParen =>
        have hgroup := (hexp .lowest).bind fun inner =>
          (founded_expect (.symbol .rightParen)).bind fun _ => Founded.pure inner
        exact Founded.advance.bind (fun _ => hgroup) s error s' h
      | leftBracket =>
        have harray := (founded_list (hexp .lowest) .rightBracket).bind fun r =>
          Founded.pure (Expr.array r.1 ⟨span.start, r.2⟩)
        exact Founded.advance.bind (fun _ => harray) s error s' h
      | leftBrace =>
        have hmap := (founded_list (founded_pair hexp) .rightBrace).bind fun r =>
          Founded.pure (Expr.map r.1 ⟨span.start, r.2⟩)
        exact Founded.advance.bind (fun _ => hmap) s error s' h
      | plus => exact Founded.advance.bind (fun _ => founded_unary hexp _ _) s error s' h
      | minus => exact Founded.advance.bind (fun _ => founded_unary hexp _ _) s error s' h
      | bang => exact Founded.advance.bind (fun _ => founded_unary hexp _ _) s error s' h
      | _ => exact hthrow h

include hexp in
theorem founded_wrap (left : Expr) (op : Operator) : Founded (wrap expression left op) := by
  refine Founded.advance.bind fun _ => ?_
  cases op with
  | binary op => exact (hexp _).bind fun _ => .pure _
  | assign => exact (hexp _).bind fun _ => .pure _
  | call => exact (founded_list (hexp _) _).bind fun _ => .pure _
  | index => exact (hexp _).bind fun _ => (founded_expect _).bind fun _ => .pure _

end Pieces

/-! ### Pieces of nodes -/

section Nodes

variable {expression : Parse Expr} {block : Parse Block} (hexp : Founded expression)
  (hblock : Founded block)

include hexp in
theorem founded_binding : Founded (binding expression) :=
  (founded_expect _).bind fun _ => founded_expectName.bind fun _ => (founded_expect _).bind fun _ =>
    hexp.bind fun _ => .pure _

include hexp in
theorem founded_returning : Founded (returning expression) := by
  refine (founded_expect _).bind fun opening => .get fun s => ?_
  split
  · exact .pure _
  · exact hexp.bind fun _ => .pure _

include hexp hblock in
theorem founded_conditionalWithin (n : Nat) :
    Founded (conditionalWithin expression block n) := by
  induction n with
  | zero => exact .failAtEnd
  | succ n ih =>
    refine (founded_expect _).bind fun opening => hexp.bind fun condition =>
      hblock.bind fun consequence => (Founded.comes _).bind fun hasElse => ?_
    split
    · refine Founded.advance.bind fun _ => (Founded.comes _).bind fun hasIf => ?_
      split
      · exact ih.bind fun _ => .pure _
      · exact hblock.bind fun _ => .pure _
    · exact .pure _

include hexp hblock in
theorem founded_node : Founded (node expression block) := by
  refine .get fun s => ?_
  split
  · exact founded_binding hexp
  · exact founded_returning hexp
  · exact .get fun s => founded_conditionalWithin hexp hblock s.lexemes.length
  · rw [map_eq_pure_bind]
    exact hexp.bind fun _ => .pure _
  · exact .failAtEnd

end Nodes

theorem founded_terminator (x : Node) (closing : Token) : Founded (terminator x closing) := by
  have hmissing : Founded (do throw ⟨.missingSemicolon, .point (← get).lastStop⟩ : Parse Unit) := by
    rintro s error s' ⟨⟩
    exact .lastStop rfl trivial
  refine .get fun s => ?_
  split
  · split
    · exact .advance
    · split
      · exact .pure ()
      · split
        · exact .failAtEnd
        · exact hmissing
  · split
    · exact .pure ()
    · exact .failAtEnd

section Blocks

variable {node : Parse Node} (hnode : Founded node)
include hnode

theorem founded_nodesWithin (n : Nat) : Founded (nodesWithin node n) := by
  induction n with
  | zero => exact .failAtEnd
  | succ n ih =>
    refine founded_skipSemicolons.bind fun _ => (Founded.comes _).bind fun closes => ?_
    split
    · exact (founded_expect _).bind fun _ => .pure _
    · refine hnode.bind fun x => (founded_terminator x _).bind fun _ => ?_
      exact ih.bind fun _ => .pure _

theorem founded_braced : Founded (braced node) :=
  (founded_expect _).bind fun _ => .get fun s =>
    (founded_nodesWithin hnode (s.lexemes.length + 1)).bind fun _ => .pure _

end Blocks

/-! ### Expressions, blocks and programs -/

theorem founded_operators_zero (place : Precedence) (left : Expr) :
    Founded (operators 0 place left) := by
  refine .get fun s => ?_
  split
  · split
    · exact .failTooDeep
    · exact .pure _
  · exact .pure _

theorem founded_operators_succ {levels : Nat} {place : Precedence}
    (hexp : ∀ place, Founded (expression levels place))
    (hoperators : ∀ e, Founded (operators levels place e)) (left : Expr) :
    Founded (operators (levels + 1) place left) := by
  refine .get fun s => ?_
  split
  · next op _ =>
    split
    · exact (founded_wrap hexp left op).bind hoperators
    · exact .pure _
  · exact .pure _

/-- Expressions, the operators around them and blocks, within any number of levels. -/
theorem founded_levels (levels : Nat) : (∀ place, Founded (expression levels place)) ∧
    (∀ place left, Founded (operators levels place left)) ∧ Founded (block levels) := by
  induction levels with
  | zero => exact ⟨fun _ => .failTooDeep, founded_operators_zero, .failTooDeep⟩
  | succ levels ih =>
    obtain ⟨hexp, hoperators, hblock⟩ := ih
    exact ⟨fun place => (founded_primary hexp hblock).bind (hoperators place),
      fun place => founded_operators_succ hexp (hoperators place),
      founded_braced (founded_node (hexp .lowest) hblock)⟩

theorem founded_nextNode (levels : Nat) : Founded (nextNode levels) := by
  refine founded_skipSemicolons.bind fun _ => .get fun s => ?_
  split
  · exact .pure _
  · exact .failAtEnd
  · obtain ⟨hexp, -, hblock⟩ := founded_levels levels
    exact (founded_node (hexp .lowest) hblock).bind fun x =>
      (founded_terminator x _).bind fun _ => .pure _

/-- **A program fails only with an error that the state gives reason for** in which it fails. -/
theorem founded_program (levels : Nat) : Founded (program levels) := by
  have hwithin (n : Nat) : Founded (programWithin levels n) := by
    induction n with
    | zero => exact .pure []
    | succ n ih =>
      refine (founded_nextNode levels).bind fun next => ?_
      cases next with
      | none => exact .pure []
      | some x => exact ih.bind fun _ => .pure _
  exact .get fun _ => .get fun s => (hwithin (s.lexemes.length + 1)).bind fun _ =>
    .get fun _ => .pure _

end Parse

/-! ### Texts -/

namespace Program

variable {text : String} {error : ParseError}

/-- An error of a text is what the parser has reason for after some of its lexemes. -/
theorem exists_blames_of_parse (h : parse text = .error error) :
    ∃ l s, Consumes (.ofStream (.ofText text)) l s ∧ s.Blames error := by
  obtain ⟨l, hl⟩ := Parse.exists_consumes_program maxNesting (.ofStream (.ofText text))
  rw [parse, ofStream] at h
  cases hs : Parse.program maxNesting (.ofStream (.ofText text)) with
  | ok program s =>
    rw [hs] at h
    cases h
  | error error' s =>
    rw [hs] at h hl
    cases h
    exact ⟨l, s, hl, Parse.founded_program maxNesting _ _ _ hs⟩

/-- Where the lexemes taken from a text end is between two of its characters. -/
theorem isBoundary_lastStop {l : List Lexeme} {s : ParserState}
    (hlt : Text.byteLength text.toList < 2 ^ 32) (h : Consumes (.ofStream (.ofText text)) l s) :
    Text.IsBoundary text.toList s.lastStop.toNat := by
  have hplaced := LexemeStream.placed_ofChars hlt
  have hstop : s.lastStop = stopAfter 0 l := h.lastStop_eq
  have hlexemes : (LexemeStream.ofText text).lexemes = l ++ s.lexemes := h.lexemes_eq
  rw [hstop]
  rcases List.eq_nil_or_concat l with rfl | ⟨l, x, rfl⟩
  · exact Text.isBoundary_zero _
  · have hx : x ∈ (LexemeStream.ofText text).lexemes := by
      rw [hlexemes]
      simp
    rw [List.concat_eq_append, Grammar.stopAfter_append]
    exact (hplaced.lexemes x hx).stop_boundary

/-- **The span of an error can be marked** in the text that has the error. -/
theorem marks_span_of_parse (hlt : Text.byteLength text.toList < 2 ^ 32)
    (h : parse text = .error error) : Text.Marks text.toList error.span := by
  obtain ⟨l, s, hl, hblames⟩ := exists_blames_of_parse h
  have hplaced := LexemeStream.placed_ofChars hlt
  have hending : s.ending = (LexemeStream.ofChars text.toList).ending := hl.ending_eq
  -- an error is at the last stop, at the end of the text, or at the lexeme ahead
  cases hblames with
  | lastStop hspan =>
    rw [hspan]
    exact Text.marks_point (isBoundary_lastStop hlt hl)
  | atEnd herror =>
    rw [herror, ParserState.endError, hending]
    have hmarks := hplaced.ending
    cases hstream : (LexemeStream.ofChars text.toList).ending with
    | eof offset => exact Text.marks_point (isBoundary_lastStop hlt hl)
    | broken lexicalError =>
      rw [hstream] at hmarks
      exact hmarks
  | @lookahead x hx hspan =>
    rw [hspan]
    rw [ParserState.lookahead?, hending] at hx
    split at hx
    · -- a lexeme of the stream
      next hs =>
      cases hx
      refine hplaced.lexemes x ?_
      have hlexemes : (LexemeStream.ofChars text.toList).lexemes = l ++ s.lexemes := hl.lexemes_eq
      rw [hlexemes, hs]
      simp
    · -- the lexeme of the end, where the lexemes have been used up
      next hstream =>
      cases hx
      have hmarks := hplaced.ending
      rw [hstream] at hmarks
      exact hmarks
    · cases hx

/-- **A text with a lexical error** is refused with that error, or with an error in the lexemes in
front of it, which ends there if the text is shorter than 4 GiB. -/
theorem lexical_or_before_of_parse {lexicalError : LexicalError}
    (hending : (LexemeStream.ofText text).ending = .broken lexicalError)
    (h : parse text = .error error) :
    error = ⟨.lexical lexicalError.cause, lexicalError.span⟩ ∨
      error.cause.InLexemes ∧ (Text.byteLength text.toList < 2 ^ 32 →
        error.span.stop ≤ lexicalError.span.start) := by
  obtain ⟨l, s, hl, hblames⟩ := exists_blames_of_parse h
  have hs : s.ending = .broken lexicalError := hl.ending_eq.trans hending
  have hlexemes : (LexemeStream.ofText text).lexemes = l ++ s.lexemes := hl.lexemes_eq
  -- the lexemes taken and those left all stand in front of the lexical error
  have ho (hlt : Text.byteLength text.toList < 2 ^ 32) :
      ∃ m, InOrder 0 l m ∧ InOrder m s.lexemes lexicalError.span.start.toNat := by
    have ho := (LexemeStream.placed_ofChars hlt).inOrder
    rw [show LexemeStream.ofChars text.toList = .ofText text from rfl, hending, hlexemes] at ho
    exact ho.split
  cases hblames with
  | atEnd herror =>
    rw [herror, ParserState.endError, hs]
    exact .inl rfl
  | lastStop hspan hcause =>
    have hstop : s.lastStop = stopAfter 0 l := hl.lastStop_eq
    refine .inr ⟨hcause, fun hlt => ?_⟩
    obtain ⟨m, htaken, hleft⟩ := ho hlt
    have hle : (stopAfter 0 l).toNat ≤ m :=
      InOrder.stopAfter_le (show InOrder (0 : UInt32).toNat l m from htaken)
    rw [hspan, hstop]
    exact UInt32.le_iff_toNat_le.2 (Nat.le_trans hle hleft.le)
  | lookahead hx hspan hcause =>
    rw [hspan]
    rw [ParserState.lookahead?, hs] at hx
    split at hx
    · next hcons =>
      cases hx
      refine .inr ⟨hcause, fun hlt => ?_⟩
      obtain ⟨m, -, hleft⟩ := ho hlt
      rw [hcons] at hleft
      exact UInt32.le_iff_toNat_le.2 (hleft.of_mem List.mem_cons_self).2.2
    · next heof => cases heof
    · cases hx

end Program

end Script
