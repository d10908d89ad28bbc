import Script.Proofs.Parser.Continuation

/-!
# Unfinished expressions

What stands in an expression goes on with what it has read where more lexemes come after it, and
from where it has stopped at the end of the lexemes some tokens finish it. What may come after is
the same for all of it: a token that closes or ends something.

* `Stops`, `EndsNode`: the tokens that may come after an expression, and after a node;
* `piece_expect`, `piece_list`: single tokens, and lists with commas;
* `piece_primary`, `resumes_wrap`: primary expressions, and what an operator makes of its left side.
-/

namespace Script.Parse

variable {α : Type} {room : Prop} {F : Token → Prop} {s s' : ParserState}

/-! ### What comes after a piece -/

/-- **The tokens that close or end something.** -/
inductive Stops : Token → Prop where
  | rightParen : Stops (.symbol .rightParen)
  | rightBracket : Stops (.symbol .rightBracket)
  | rightBrace : Stops (.symbol .rightBrace)
  | leftBrace : Stops (.symbol .leftBrace)
  | colon : Stops (.symbol .colon)
  | semicolon : Stops (.symbol .semicolon)
  | eof : Stops .eof

/-- The tokens that end a node. -/
def EndsNode (token : Token) : Prop :=
  endsReturn token = true

theorem Stops.ofToken?_eq_none {token : Token} (h : Stops token) :
    Operator.ofToken? token = none := by
  cases h <;> rfl

theorem stops_of_endsNode {token : Token} (h : EndsNode token) : Stops token := by
  unfold EndsNode endsReturn at h
  split at h
  · exact .semicolon
  · exact .rightBrace
  · exact .eof
  · cases h

theorem not_endsNode_else : ¬ EndsNode (.keyword .elseWord) := by
  rintro ⟨⟩

theorem precedence_of_stops (h : s.Faces Stops) : s.precedence.rank = 0 := by
  obtain ⟨x, hx, hstops⟩ := h
  rw [ParserState.precedence, ParserState.operator?, hx, Option.bind_some,
    hstops.ofToken?_eq_none]
  rfl

/-! ### Single lexemes -/

/-- A parser looks at the next lexeme, and fails where there is none. -/
structure Peeks (p : Parse α) (f : Lexeme → Parse α) : Prop where
  nil : ∀ ⦃s : ParserState⦄, s.lexemes = [] → p s = .error s.endError s
  cons : ∀ ⦃s : ParserState⦄ ⦃x rest⦄, s.lexemes = x :: rest → p s = f x s

theorem Peeks.needs {p : Parse α} {f : Lexeme → Parse α} (h : Peeks p f) : NeedsLexeme p := by
  intro s a s' hs ha
  cases (h.nil hs).symm.trans ha

/-- What looks at the next lexeme goes on if it does so from every lexeme. -/
theorem Peeks.piece {fillers : List Filler} {p q : Parse α} {f g : Lexeme → Parse α}
    (hp : Peeks p f) (hq : Peeks q g) (hfinishes : room → Finishes fillers F q)
    (h : ∀ s x rest, s.lexemes = x :: rest → Resumes room F (f x) (g x) s) :
    Piece room fillers F p q where
  resumes s := by
    cases hs : s.lexemes with
    | nil => exact .atEnd hs (hp.nil hs) (hq.nil hs) hfinishes
    | cons x rest =>
      refine (h s x rest hs).congr (hp.cons hs) (hq.cons hs) fun k => ?_
      exact hq.cons (ParserState.lexemes_followedBy hs k)
  finishes := hfinishes
  needs _ := hp.needs

theorem peeks_expect (token : Token) : Peeks (expect token) fun x =>
    if x.token = token then advance >>= fun _ => pure x.span
    else throw ⟨.unexpectedToken x.token token, x.span⟩ where
  nil _ hs := expect_of_nil token hs
  cons s x rest hs := by
    rw [expect, get_bind, hs]

/-- **A certain token** is finished by itself. -/
theorem piece_expect (filler : Filler) :
    Piece room [filler] F (expect filler.token) (expect filler.token) := by
  refine (peeks_expect _).piece (peeks_expect _) (fun _ s s' l hl hfillers _ => ?_)
    fun s x rest hs => ?_
  · obtain ⟨span, l, rfl, hnil⟩ := exists_of_map_cons hfillers
    obtain rfl := List.map_eq_nil_iff.1 hnil
    exact ⟨span, (gives_expect hl).ok⟩
  · split
    · exact .advance hs (.pure _)
    · exact .throw (by rw [hs]; simp) (by simp)

theorem peeks_expectName : Peeks expectName fun x =>
    match x.token with
    | .name text => advance >>= fun _ => pure ⟨text, x.span⟩
    | _ => throw ⟨.expectedName, x.span⟩ where
  nil s hs := by
    rw [expectName, get_bind, hs]
    rfl
  cons s x rest hs := by
    rw [expectName, get_bind, hs]
    obtain ⟨token, span⟩ := x
    cases token <;> rfl

/-- A name is finished by any. -/
theorem piece_expectName : Piece room [.name] F expectName expectName := by
  refine peeks_expectName.piece peeks_expectName (fun _ s s' l hl hfillers _ => ?_)
    fun s x rest hs => ?_
  · obtain ⟨span, l, rfl, hnil⟩ := exists_of_map_cons hfillers
    obtain rfl := List.map_eq_nil_iff.1 hnil
    exact ⟨⟨_, span⟩, (gives_expectName hl).ok⟩
  · split
    · exact .advance hs (.pure _)
    · exact .throw (by rw [hs]; simp) (by simp)

/-- Semicolons are skipped up to the same lexeme. -/
theorem resumes_skipSemicolons (s : ParserState) :
    Resumes room (· ≠ .symbol .semicolon) skipSemicolons skipSemicolons s := by
  by_cases hcomes : s.Comes (.symbol .semicolon)
  · obtain ⟨span, rest, hs⟩ := exists_cons_of_lookahead (by simp) hcomes
    have hlt := length_advance_lt (by simp) hcomes
    refine Resumes.congr (p := advance >>= fun _ => skipSemicolons)
      (q := advance >>= fun _ => skipSemicolons) (.advance hs (resumes_skipSemicolons s.advance))
      (skipSemicolons_of_comes hs) (skipSemicolons_of_comes hs) fun k => ?_
    exact skipSemicolons_of_comes (ParserState.lexemes_followedBy hs k)
  · refine .of_ok (skipSemicolons_of_not_comes hcomes) (skipSemicolons_of_not_comes hcomes)
      fun k hk => skipSemicolons_of_not_comes ?_
    cases hs : s.lexemes with
    | nil => exact (ParserState.faces_followedBy_of_nil hs (hk hs)).not_comes (by simp)
    | cons x rest => exact mt (ParserState.comes_followedBy_of_cons hs k).1 hcomes
termination_by s.lexemes.length

/-! ### Lists -/

section Lists

variable {fillers : List Filler} {item item' : Parse α}

theorem stops_of_closes {closing : Symbol} (h : Closes closing) : Stops (.symbol closing) := by
  rcases h with rfl | rfl | rfl
  · exact .rightParen
  · exact .rightBracket
  · exact .rightBrace

theorem not_stops_comma : ¬ Stops (.symbol .comma) := by
  rintro ⟨⟩

theorem finishes_afterCommas : Finishes [] Stops (afterCommas item') := by
  intro s s' l hl hfillers hs'
  obtain rfl := List.map_eq_nil_iff.1 hfillers
  obtain rfl := hl.eq_of_nil
  exact ⟨[], afterCommas_of_not_comes (hs'.not_comes not_stops_comma)⟩

variable (hitem : Piece room fillers Stops item item') (htakes : Takes item)
  (htakes' : Takes item')
include hitem htakes htakes'

theorem resumes_afterCommas (s : ParserState) :
    Resumes room Stops (afterCommas item) (afterCommas item') s := by
  by_cases hcomes : s.Comes (.symbol .comma)
  · obtain ⟨span, rest, hs⟩ := exists_cons_of_lookahead (by simp) hcomes
    have hlt := length_advance_lt (by simp) hcomes
    -- one more item, then the others by induction on the lexemes that are left
    have hround : Resumes room Stops
        (item >>= fun x => afterCommas item >>= fun xs => pure (x :: xs))
        (item' >>= fun x => afterCommas item' >>= fun xs => pure (x :: xs)) s.advance := by
      refine (hitem.resumes s.advance).bind [] (fun x s₁ hx => ?_) (fun _ x => ?_)
        (fun _ => id) (fun h => absurd rfl h)
      · have hle := htakes.length_le hx
        exact Piece.after (fun xs => .pure (x :: xs)) (resumes_afterCommas s₁) fun _ => id
      · exact finishes_afterCommas.bind (fun xs => .pure (x :: xs)) fun _ => id
    refine Resumes.congr (p := advance >>= fun _ => _) (q := advance >>= fun _ => _)
      (.advance hs hround) (afterCommas_of_comes htakes hcomes)
      (afterCommas_of_comes htakes' hcomes) fun k => ?_
    exact afterCommas_of_comes htakes' ((ParserState.comes_followedBy_of_cons hs k).2 hcomes)
  · -- without a comma the list is done, and stays so with what may come after
    refine .of_ok (afterCommas_of_not_comes hcomes) (afterCommas_of_not_comes hcomes)
      fun k hk => afterCommas_of_not_comes ?_
    cases hs : s.lexemes with
    | nil => exact (ParserState.faces_followedBy_of_nil hs (hk hs)).not_comes not_stops_comma
    | cons x rest => exact mt (ParserState.comes_followedBy_of_cons hs k).1 hcomes
termination_by s.lexemes.length

/-- **A list** is finished by what closes it. -/
theorem piece_list {closing : Symbol} (hclosing : Closes closing) :
    Piece room [.symbol closing] F (list item closing) (list item' closing) := by
  have hafter : Piece room [] Stops (afterCommas item) (afterCommas item') :=
    ⟨resumes_afterCommas hitem htakes htakes', fun _ => finishes_afterCommas,
      fun h => absurd rfl h⟩
  have hclose : Piece room [.symbol closing] F (expect (.symbol closing))
      (expect (.symbol closing)) :=
    piece_expect (.symbol closing)
  -- a list with items, and one without
  have hitems : Piece room (fillers ++ [.symbol closing]) F
      (item >>= fun x => afterCommas item >>= fun xs => expect (.symbol closing) >>= fun close =>
        pure (x :: xs, close.stop))
      (item' >>= fun x => afterCommas item' >>= fun xs => expect (.symbol closing) >>= fun close =>
        pure (x :: xs, close.stop)) :=
    hitem.bind (fun x => hafter.bind (fun xs => hclose.bind (fun close => .pure _) fun _ => id)
      (stops_of_closes hclosing)) (stops_of_closes hclosing)
  have hempty : Piece room [.symbol closing] F
      (expect (.symbol closing) >>= fun close => pure (([], close.stop) : List α × UInt32))
      (expect (.symbol closing) >>= fun close => pure ([], close.stop)) :=
    hclose.bind (fun close => .pure _) fun _ => id
  have hnil {item : Parse α} {s : ParserState} (hs : s.lexemes = []) : list item closing s =
      (item >>= fun x => afterCommas item >>= fun xs => expect (.symbol closing) >>= fun close =>
        pure (x :: xs, close.stop)) s :=
    bind_ok (comes_of_not_comes (not_comes_of_nil (by simp) hs))
  have hfinishes (_ : room) : Finishes [.symbol closing] F (list item' closing) := by
    intro s s' l hl hfillers _
    obtain ⟨span, l, rfl, hnil⟩ := exists_of_map_cons hfillers
    obtain rfl := List.map_eq_nil_iff.1 hnil
    exact ⟨_, (gives_list_nil hl).ok⟩
  refine ⟨fun s => ?_, hfinishes, fun _ s a s' hs ha => ?_⟩
  · cases hs : s.lexemes with
    | nil =>
      exact .of_nil hs (hitems.resumes s) (hitems.needs (by simp)) (hnil hs) (hnil hs) hfinishes
    | cons x rest => exact .comes hs (fun _ => hempty.resumes s) fun _ => hitems.resumes s
  · exact hitems.needs (by simp) hs ((hnil hs).symm.trans ha)

end Lists

/-! ### Pieces of expressions -/

section Pieces

variable {expression expression' : Precedence → Parse Expr} {block block' : Parse Block}
  (hexp : ∀ place, Piece room [.zero] Stops (expression place) (expression' place))
  (htakes : ∀ place, Takes (expression place)) (htakes' : ∀ place, Takes (expression' place))
  (hblock : Piece room [.symbol .leftBrace, .symbol .rightBrace] Stops block block')

include hexp in
theorem piece_pair :
    Piece room [.zero, .symbol .colon, .zero] Stops (pair (expression .lowest))
      (pair (expression' .lowest)) :=
  (hexp .lowest).bind (fun key => (piece_expect (.symbol .colon)).andThen fun _ =>
    (hexp .lowest).bind (fun value => .pure (key, value)) fun _ => id) Stops.colon

include hexp in
theorem piece_unary (op : UnaryOp) (start : UInt32) :
    Piece room [.zero] Stops (unary expression op start) (unary expression' op start) :=
  (hexp .unary).bind (fun _ => .pure _) fun _ => id

include hblock in
theorem piece_function (start : UInt32) :
    Piece room [.symbol .leftParen, .symbol .rightParen, .symbol .leftBrace, .symbol .rightBrace]
      Stops (function block start) (function block' start) :=
  (piece_expect (.symbol .leftParen)).andThen fun _ =>
    (piece_list piece_expectName takes_expectName takes_expectName (.inl rfl)).andThen
      fun _ => hblock.bind (fun _ => .pure _) fun _ => id

include hexp htakes htakes' hblock in
theorem resumes_primaryAt {x : Lexeme} {rest : List Lexeme} (hs : s.lexemes = x :: rest) :
    Resumes room Stops (primaryAt expression block x) (primaryAt expression' block' x) s := by
  obtain ⟨token, span⟩ := x
  -- all that begins with a lexeme takes it; what comes after resumes by the pieces it is made of
  have hatom (e : Expr) : Resumes room Stops (advance >>= fun _ => Pure.pure e)
      (advance >>= fun _ => Pure.pure e) s :=
    .advance hs (.pure e)
  have hunary (op : UnaryOp) : Resumes room Stops
      (advance >>= fun _ => unary expression op span.start)
      (advance >>= fun _ => unary expression' op span.start) s :=
    .advance hs ((piece_unary hexp op _).resumes _)
  have hnone (found : Token) : Resumes room Stops
      (throw ⟨.expectedExpression found, span⟩ : Parse Expr)
      (throw ⟨.expectedExpression found, span⟩) s :=
    .throw (by rw [hs]; simp) (by simp)
  unfold primaryAt
  dsimp only
  cases token with
  | name text => exact hatom _
  | integer value => exact hatom _
  | string value => exact hatom _
  | comment => exact hnone _
  | eof => exact hnone _
  | keyword word =>
    cases word with
    | trueWord => exact hatom _
    | falseWord => exact hatom _
    | functionWord => exact .advance hs ((piece_function hblock _).resumes _)
    | _ => exact hnone _
  | symbol sign =>
    cases sign with
    | leftParen =>
      have hclose (inner : Expr) : Piece room [.symbol .rightParen] Stops
          (expect (.symbol .rightParen) >>= fun _ => Pure.pure inner)
          (expect (.symbol .rightParen) >>= fun _ => Pure.pure inner) :=
        (piece_expect (.symbol .rightParen)).andThen fun _ => .pure inner
      exact .advance hs (((hexp .lowest).bind hclose Stops.rightParen).resumes _)
    | leftBracket =>
      exact .advance hs (((piece_list (hexp .lowest) (htakes _) (htakes' _)
        (.inr (.inl rfl))).andThen fun r => .pure _).resumes _)
    | leftBrace =>
      exact .advance hs (((piece_list (piece_pair hexp) (takes_pair (htakes _))
        (takes_pair (htakes' _)) (.inr (.inr rfl))).andThen fun r => .pure _).resumes _)
    | plus => exact hunary .plus
    | minus => exact hunary .minus
    | bang => exact hunary .not
    | _ => exact hnone _

theorem peeks_primary :
    Peeks (primary expression block) (primaryAt expression block) where
  nil s hs := by
    rw [primary, get_bind, hs]
    rfl
  cons s x rest hs := by
    rw [primary, get_bind, hs]

theorem finishes_primary : Finishes [.zero] F (primary expression block) := by
  intro s s' l hl hfillers _
  obtain ⟨span, l, rfl, hnil⟩ := exists_of_map_cons hfillers
  obtain rfl := List.map_eq_nil_iff.1 hnil
  have hgives (h : Gives False (primaryAt expression block ⟨.integer 0, span⟩) s
      (.integer 0 span) s') : Gives False (primary expression block) s (.integer 0 span) s' :=
    gives_primary hl h
  refine ⟨.integer 0 span, (hgives (.of_ok ?_)).ok⟩
  show (advance >>= fun _ => Pure.pure (Expr.integer 0 span)) s = _
  rw [bind_ok (advance_apply s), advance_of_consumes hl]
  rfl

include hexp htakes htakes' hblock in
theorem piece_primary :
    Piece room [.zero] Stops (primary expression block) (primary expression' block') :=
  peeks_primary.piece peeks_primary (fun _ => finishes_primary) fun _ _ _ =>
    resumes_primaryAt hexp htakes htakes' hblock

include hexp htakes htakes' in
/-- **An operator that comes next** is taken, and then its operand. -/
theorem resumes_wrap (left : Expr) (op : Operator) {x : Lexeme} {rest : List Lexeme}
    (hs : s.lexemes = x :: rest) :
    Resumes room Stops (wrap expression left op) (wrap expression' left op) s := by
  refine .advance hs ?_
  cases op with
  | binary op => exact ((hexp _).bind (fun right => .pure _) fun _ => id).resumes _
  | assign => exact ((hexp _).bind (fun value => .pure _) fun _ => id).resumes _
  | call =>
    exact ((piece_list (hexp .lowest) (htakes _) (htakes' _) (.inl rfl)).andThen
      fun r => .pure _).resumes _
  | index =>
    have hclose (key : Expr) : Piece room [.symbol .rightBracket] Stops
        (expect (.symbol .rightBracket) >>= fun close =>
          Pure.pure (Expr.index left key ⟨left.span.start, close.stop⟩))
        (expect (.symbol .rightBracket) >>= fun close =>
          Pure.pure (Expr.index left key ⟨left.span.start, close.stop⟩)) :=
      (piece_expect (.symbol .rightBracket)).andThen fun _ => .pure _
    exact ((hexp .lowest).bind hclose Stops.rightBracket).resumes _

end Pieces

end Script.Parse
