import Script.Proofs.Parser.Unfinished.Expression

/-!
# Unfinished nodes

A node goes on with what it has read, given expressions and blocks that do. After a `return` an
expression may follow or not, so what comes after a node has to end it.

* `piece_binding`, `piece_returning`, `resumes_conditional`: the kinds of nodes;
* `piece_node`: nodes;
* `piece_terminator`: what ends a node.
-/

namespace Script.Parse

variable {α : Type} {room : Prop} {F : Token → Prop} {s s' : ParserState}

/-! ### Pieces of nodes -/

section Nodes

variable {expression expression' : Parse Expr} {block block' : Parse Block}
  (hexp : Piece room [.zero] Stops expression expression')
  (htakes : Takes expression) (htakes' : Takes expression')
  (hblock : Piece room [.symbol .leftBrace, .symbol .rightBrace] Stops block block')
  (hbtakes : Takes block) (hbtakes' : Takes block')

include hexp in
theorem piece_binding :
    Piece room [.keyword .letWord, .name, .symbol .assign, .zero] Stops (binding expression)
      (binding expression') :=
  (piece_expect (.keyword .letWord)).andThen fun _ => piece_expectName.andThen fun _ =>
    (piece_expect (.symbol .assign)).andThen fun _ => hexp.bind (fun _ => .pure _) fun _ => id

/-- What stands after `return`: nothing, or an expression. -/
def returned (expression : Parse Expr) (opening : Span) : Parse Node := do
  if (← get).lookahead?.any (endsReturn ·.token) then
    return .returning none opening
  else
    let value ← expression
    return .returning (some value) ⟨opening.start, value.span.stop⟩

theorem returned_of_faces (opening : Span) (h : s.Faces EndsNode) :
    returned expression opening s = .ok (.returning none opening) s := by
  obtain ⟨x, hx, hends⟩ := h
  rw [returned, get_bind, hx, Option.any_some, if_pos (show endsReturn x.token = true from hends)]
  rfl

theorem returned_of_not_faces (opening : Span) (h : ¬ s.Faces EndsNode) :
    returned expression opening s = (expression >>= fun value =>
      pure (.returning (some value) ⟨opening.start, value.span.stop⟩)) s := by
  rw [returned, get_bind, if_neg]
  rw [Option.any_eq_true]
  exact h

theorem faces_followedBy_of_cons {x : Lexeme} {rest : List Lexeme} (hs : s.lexemes = x :: rest)
    (k : ParserState) : (s.followedBy k).Faces F ↔ s.Faces F := by
  rw [ParserState.Faces, ParserState.lookahead?_followedBy_of_cons hs, ParserState.Faces]

include hexp in
theorem piece_returned (opening : Span) :
    Piece room [] EndsNode (returned expression opening) (returned expression' opening) := by
  have hvalue : Piece room [.zero] Stops
      (expression >>= fun value =>
        pure (Node.returning (some value) ⟨opening.start, value.span.stop⟩))
      (expression' >>= fun value =>
        pure (Node.returning (some value) ⟨opening.start, value.span.stop⟩)) :=
    hexp.bind (fun _ => .pure _) fun _ => id
  -- a `return` without a value needs nothing more
  have hfinishes : Finishes [] EndsNode (returned expression' opening) := by
    intro s s' l hl hfillers hs'
    obtain rfl := List.map_eq_nil_iff.1 hfillers
    obtain rfl := hl.eq_of_nil
    exact ⟨_, returned_of_faces opening hs'⟩
  refine ⟨fun s => ?_, fun _ => hfinishes, fun h => absurd rfl h⟩
  by_cases hfaces : s.Faces EndsNode
  · refine .of_ok (returned_of_faces opening hfaces) (returned_of_faces opening hfaces)
      fun k hk => returned_of_faces opening ?_
    cases hs : s.lexemes with
    | nil => exact ParserState.faces_followedBy_of_nil hs (hk hs)
    | cons x rest => exact (faces_followedBy_of_cons hs k).2 hfaces
  · cases hs : s.lexemes with
    -- there may be a value to come: where no lexemes are left, this is not known yet
    | nil =>
      exact .of_nil hs (hvalue.resumes s) (hvalue.needs (by simp))
        (returned_of_not_faces opening hfaces) (returned_of_not_faces opening hfaces)
        fun _ => hfinishes
    | cons x rest =>
      exact ((hvalue.resumes s).mono fun _ => stops_of_endsNode).congr
        (returned_of_not_faces opening hfaces) (returned_of_not_faces opening hfaces)
        fun k => returned_of_not_faces opening (mt (faces_followedBy_of_cons hs k).1 hfaces)

include hexp in
theorem piece_returning :
    Piece room [.keyword .returnWord] EndsNode (returning expression) (returning expression') :=
  (piece_expect (.keyword .returnWord)).andThen fun opening => piece_returned hexp opening

/-! ### Conditionals -/

theorem finishes_afterConsequence (alternative : Parse Block) (start : UInt32) (condition : Expr)
    (consequence : Block) :
    Finishes [] EndsNode (afterConsequence alternative start condition consequence) := by
  intro s s' l hl hfillers hs'
  obtain rfl := List.map_eq_nil_iff.1 hfillers
  obtain rfl := hl.eq_of_nil
  exact ⟨_, bind_ok (comes_of_not_comes (hs'.not_comes not_endsNode_else))⟩

/-- What stands after the two parts of an `if` goes on if what stands after `else` does. -/
theorem resumes_afterConsequence {alternative alternative' : Parse Block} (start : UInt32)
    (condition : Expr) (consequence : Block)
    (h : s.Comes (.keyword .elseWord) → Resumes room EndsNode alternative alternative' s.advance) :
    Resumes room EndsNode (afterConsequence alternative start condition consequence)
      (afterConsequence alternative' start condition consequence) s := by
  by_cases hcomes : s.Comes (.keyword .elseWord)
  · obtain ⟨span, rest, hs⟩ := exists_cons_of_lookahead (by simp) hcomes
    refine .comes hs (fun _ => .advance hs ?_) fun hno => absurd hcomes hno
    exact Piece.after (fun _ => .pure _) (h hcomes) fun _ => id
  · refine .of_ok (bind_ok (comes_of_not_comes hcomes)) (bind_ok (comes_of_not_comes hcomes))
      fun k hk => bind_ok (comes_of_not_comes ?_)
    cases hs : s.lexemes with
    | nil =>
      exact (ParserState.faces_followedBy_of_nil hs (hk hs)).not_comes not_endsNode_else
    | cons x rest => exact mt (ParserState.comes_followedBy_of_cons hs k).1 hcomes

include hblock in
/-- What stands after `else` goes on if another `if` does. -/
theorem resumes_alternative (h : Resumes room EndsNode (conditional expression block)
      (conditional expression' block') s)
    (hfinishes : room → Finishes [.symbol .leftBrace, .symbol .rightBrace] EndsNode
      (alternative expression' block')) :
    Resumes room EndsNode (alternative expression block) (alternative expression' block') s := by
  have hnil {expression : Parse Expr} {block : Parse Block} (hs : s.lexemes = []) :
      alternative expression block s = block s :=
    bind_ok (comes_of_not_comes (not_comes_of_nil (by simp) hs))
  cases hs : s.lexemes with
  | nil =>
    exact .of_nil hs (hblock.resumes s) (hblock.needs (by simp)) (hnil hs) (hnil hs) hfinishes
  | cons x rest =>
    refine .comes hs (fun _ => ?_) fun _ => ?_
    · exact Piece.after (fun inner => .pure _) h fun _ => id
    · exact (hblock.resumes s).mono fun _ => stops_of_endsNode

include hblock in
theorem finishes_alternative (hroom : room) :
    Finishes [.symbol .leftBrace, .symbol .rightBrace] EndsNode
      (alternative expression' block') := by
  intro s s' l hl hfillers hs'
  have hnot : ¬ s.Comes (.keyword .ifWord) := by
    obtain ⟨span, l, rfl, -⟩ := exists_of_map_cons hfillers
    exact hl.not_comes (by simp [Filler.token])
  obtain ⟨b, hb⟩ := hblock.finishes hroom hl hfillers (hs'.imp fun _ => stops_of_endsNode)
  exact ⟨b, (bind_ok (comes_of_not_comes hnot)).trans hb⟩

include hexp htakes htakes' hblock hbtakes hbtakes' in
theorem resumes_conditional (s : ParserState) :
    Resumes room EndsNode (conditional expression block) (conditional expression' block') s := by
  refine Resumes.congr ?_ (conditional_apply htakes hbtakes s)
    (conditional_apply htakes' hbtakes' s)
    fun k => conditional_apply htakes' hbtakes' _
  -- what finishes each of the steps
  have hrest (start : UInt32) (condition : Expr) (consequence : Block) :=
    finishes_afterConsequence (alternative expression' block') start condition consequence
  have hconsequence (hroom : room) (start : UInt32) (condition : Expr) :
      Finishes [.symbol .leftBrace, .symbol .rightBrace] EndsNode
        (block' >>= fun consequence =>
          afterConsequence (alternative expression' block') start condition consequence) :=
    (hblock.finishes hroom).bind (hrest start condition) fun _ => stops_of_endsNode
  have hcondition (hroom : room) (start : UInt32) :
      Finishes [.zero, .symbol .leftBrace, .symbol .rightBrace] EndsNode
        (expression' >>= fun condition => block' >>= fun consequence =>
          afterConsequence (alternative expression' block') start condition consequence) :=
    (hexp.finishes hroom).bind (hconsequence hroom start) Stops.leftBrace
  refine ((piece_expect (F := fun _ => True) (.keyword .ifWord)).resumes s).bind _
    (fun opening s₁ hopening => ?_) (fun hroom opening => hcondition hroom opening.start) trivial
    fun _ _ => (hexp.needs (by simp)).bind _
  refine (hexp.resumes s₁).bind _ (fun condition s₂ hconditionOk => ?_)
    (fun hroom condition => hconsequence hroom opening.start condition) Stops.leftBrace
    fun _ _ => (hblock.needs (by simp)).bind _
  refine (hblock.resumes s₂).bind _ (fun consequence s₃ hblockOk => ?_)
    (fun _ consequence => hrest opening.start condition consequence)
    (fun _ => stops_of_endsNode) fun h => absurd rfl h
  refine resumes_afterConsequence _ _ _ fun helse => ?_
  -- the keyword at the front has been taken, so less is left for another `if`
  have h₁ := (consumes_of_expect hopening).length_lt (by simp)
  have h₂ := htakes.length_le hconditionOk
  have h₃ := hbtakes.length_le hblockOk
  have h₄ := length_advance_lt (by simp) helse
  exact resumes_alternative hblock (resumes_conditional s₃.advance) (finishes_alternative hblock)
termination_by s.lexemes.length

/-! ### Nodes -/

/-- A node that begins with a given lexeme. -/
def nodeAt (expression : Parse Expr) (block : Parse Block) (x : Lexeme) : Parse Node :=
  match x.token with
  | .keyword .letWord => binding expression
  | .keyword .returnWord => returning expression
  | .keyword .ifWord => conditional expression block
  | _ => .expression <$> expression

theorem node_of_cons {x : Lexeme} {rest : List Lexeme} (hs : s.lexemes = x :: rest) :
    node expression block s = nodeAt expression block x s := by
  rw [node, get_bind, ParserState.lookahead?_of_cons hs]
  obtain ⟨token, span⟩ := x
  cases token with
  | keyword word => cases word <;> rfl
  | _ => rfl

theorem node_of_eof {offset : UInt32} (hs : s.lexemes = []) (hending : s.ending = .eof offset) :
    node expression block s = (Node.expression <$> expression) s := by
  rw [node, get_bind, ParserState.lookahead?, hs, hending]

theorem node_of_broken {error : LexicalError} (hs : s.lexemes = [])
    (hending : s.ending = .broken error) :
    node expression block s = .error s.endError s := by
  rw [node, get_bind, ParserState.lookahead?, hs, hending]
  rfl

include hexp in
theorem piece_expressionNode : Piece room [.zero] Stops
    (Node.expression <$> expression) (Node.expression <$> expression') := by
  rw [map_eq_pure_bind, map_eq_pure_bind]
  exact hexp.bind (fun _ => .pure _) fun _ => id

include hexp htakes htakes' hblock hbtakes hbtakes' in
theorem piece_node :
    Piece room [.zero] EndsNode (node expression block) (node expression' block') := by
  have hnode := piece_expressionNode hexp
  -- an integer is a node
  have hfinishes (hroom : room) : Finishes [.zero] EndsNode (node expression' block') := by
    intro s s' l hl hfillers hs'
    obtain ⟨span, l, rfl, hnil⟩ := exists_of_map_cons hfillers
    rw [node_eq_expression hl rfl]
    exact hnode.finishes hroom hl hfillers (hs'.imp fun _ => stops_of_endsNode)
  refine ⟨fun s => ?_, hfinishes, fun _ s x s' hs hx => ?_⟩
  · cases hs : s.lexemes with
    | nil =>
      cases hending : s.ending with
      | eof offset =>
        exact .of_nil hs (hnode.resumes s) (hnode.needs (by simp)) (node_of_eof hs hending)
          (node_of_eof hs hending) hfinishes
      | broken error =>
        exact .atEnd hs (node_of_broken hs hending) (node_of_broken hs hending) hfinishes
    | cons x rest =>
      -- which node it is depends on the lexeme ahead alone
      have hat : Resumes room EndsNode (nodeAt expression block x) (nodeAt expression' block' x)
          s := by
        unfold nodeAt
        split
        · exact ((piece_binding hexp).resumes s).mono fun _ => stops_of_endsNode
        · exact (piece_returning hexp).resumes s
        · exact resumes_conditional hexp htakes htakes' hblock hbtakes hbtakes' s
        · exact (hnode.resumes s).mono fun _ => stops_of_endsNode
      exact hat.congr (node_of_cons hs) (node_of_cons hs) fun k =>
        node_of_cons (ParserState.lexemes_followedBy hs k)
  · cases hending : s.ending with
    | eof offset => exact hnode.needs (by simp) hs ((node_of_eof hs hending).symm.trans hx)
    | broken error => cases (node_of_broken hs hending).symm.trans hx

/-- What has to follow a node where a given lexeme comes next. -/
def terminatorAt (x : Node) (closing : Token) (y : Lexeme) : Parse Unit :=
  if y.token = .symbol .semicolon then
    advance
  else if y.token = closing || x.endsWithBlock then
    pure ()
  else if y.token = .eof then
    failAtEnd
  else do
    throw ⟨.missingSemicolon, .point (← get).lastStop⟩

theorem terminator_of_cons (x : Node) (closing : Token) {y : Lexeme} {rest : List Lexeme}
    (hs : s.lexemes = y :: rest) : terminator x closing s = terminatorAt x closing y s := by
  rw [terminator, get_bind, ParserState.lookahead?_of_cons hs]
  rfl

theorem terminator_of_nil {x : Node} {closing : Token} (hs : s.lexemes = [])
    (hcomes : ¬ s.Comes closing) (hx : x.endsWithBlock = false) :
    terminator x closing s = .error s.endError s := by
  rw [terminator, get_bind]
  cases hending : s.ending with
  | eof offset =>
    have hne : closing ≠ .eof := by
      rintro rfl
      apply hcomes
      rw [ParserState.Comes, ParserState.lookahead?, hs, hending]
      rfl
    rw [ParserState.lookahead?, hs, hending]
    simp only [hx, hne.symm]
    rfl
  | broken error =>
    rw [ParserState.lookahead?, hs, hending]
    simp only [hx]
    rfl

theorem resumes_terminatorAt (x : Node) (closing : Token) {y : Lexeme} {rest : List Lexeme}
    (hs : s.lexemes = y :: rest) :
    Resumes room F (terminatorAt x closing y) (terminatorAt x closing y) s := by
  have hne : s.lexemes ≠ [] := by rw [hs]; simp
  unfold terminatorAt
  split
  · rw [← bind_pure advance]
    exact .advance hs (.pure _)
  · split
    · exact .pure _
    · split
      · next heof =>
        refine ⟨⟨[], .refl s⟩, ?_, ?_, ?_⟩
        · rintro a s' ⟨⟩
        · rintro a s' ⟨⟩
        · -- no lexeme of a text is its end
          rintro _ error s' ⟨⟩ hproper _
          exact absurd heof (hproper.token_ne y (by rw [hs]; simp))
      · refine Resumes.congr (.throw hne ?_) get_bind get_bind fun k => get_bind
        simp

/-- **What has to follow a node** is found as far as the closing token of the place. -/
theorem piece_terminator (x : Node) {closing : Token} (hclosing : closing ≠ .symbol .semicolon) :
    Piece room [] (· = closing) (terminator x closing) (terminator x closing) := by
  have hcloses {s : ParserState} (hs : s.Faces (· = closing)) :
      terminator x closing s = .ok () s := by
    obtain ⟨y, hy, rfl⟩ := hs
    refine terminator_of_closing ?_ hclosing
    rw [ParserState.Comes, hy]
    exact beq_self_eq_true _
  have hfinishes : Finishes [] (· = closing) (terminator x closing) := by
    intro s s' l hl hfillers hs'
    obtain rfl := List.map_eq_nil_iff.1 hfillers
    obtain rfl := hl.eq_of_nil
    exact ⟨(), hcloses hs'⟩
  refine ⟨fun s => ?_, fun _ => hfinishes, fun h => absurd rfl h⟩
  cases hs : s.lexemes with
  | nil =>
    -- accepted where no lexemes are left, and before the closing token
    have hopen (h : terminator x closing s = .ok () s) :
        Resumes room (· = closing) (terminator x closing) (terminator x closing) s :=
      .of_ok h h fun k hk => hcloses (ParserState.faces_followedBy_of_nil hs (hk hs))
    by_cases hcomes : s.Comes closing
    · exact hopen (terminator_of_closing hcomes hclosing)
    · cases hx : x.endsWithBlock with
      | true => exact hopen (terminator_of_endsWithBlock hx (not_comes_of_nil (by simp) hs))
      | false =>
        exact .atEnd hs (terminator_of_nil hs hcomes hx) (terminator_of_nil hs hcomes hx)
          fun _ => hfinishes
  | cons y rest =>
    exact (resumes_terminatorAt x closing hs).congr (terminator_of_cons x closing hs)
      (terminator_of_cons x closing hs) fun k =>
        terminator_of_cons x closing (ParserState.lexemes_followedBy hs k)

end Nodes

end Script.Parse
