import Script.Proofs.Parser.Unfinished.Node

/-!
# Parsers of unfinished texts

Every parser goes on with what it has read where more lexemes come after it, and from where it has
stopped at the end of the lexemes some tokens finish it. Expressions and blocks do so within the
same number of levels or a greater one; to finish what is open takes one level more.

* `piece_expression`, `piece_block`: expressions and blocks;
* `resumes_programNodes`: whole programs.
-/

namespace Script.Parse

variable {α : Type} {room : Prop} {F : Token → Prop} {s s' : ParserState}

/-! ### Blocks -/

section Blocks

variable {node node' : Parse Node} (hnode : Piece room [.zero] EndsNode node node')
  (hprogress : ∀ s x s', node s = .ok x s' → s'.lexemes.length < s.lexemes.length)
  (hprogress' : ∀ s x s', node' s = .ok x s' → s'.lexemes.length < s.lexemes.length)

theorem finishes_nodesBody (rest : Parse (List Node × UInt32)) :
    Finishes [.symbol .rightBrace] F (nodesBody node rest) := by
  intro s s' l hl hfillers _
  obtain ⟨span, l, rfl, hnil⟩ := exists_of_map_cons hfillers
  obtain rfl := List.map_eq_nil_iff.1 hnil
  have hcomes : s.Comes (.symbol .rightBrace) := hl.comes
  refine ⟨([], span.stop), (bind_ok (comes_of_comes hcomes)).trans ?_⟩
  exact bind_ok (gives_expect hl).ok

include hprogress in
theorem finishes_nodes : Finishes [.symbol .rightBrace] F (nodes node) := by
  intro s s' l hl hfillers hs'
  have hnot : ¬ s.Comes (.symbol .semicolon) := by
    obtain ⟨span, l, rfl, -⟩ := exists_of_map_cons hfillers
    exact hl.not_comes (by simp [Filler.token])
  rw [nodes_apply hprogress, nodesRound, bind_ok (skipSemicolons_of_not_comes hnot)]
  exact finishes_nodesBody _ hl hfillers hs'

theorem nodesBody_of_nil (rest : Parse (List Node × UInt32)) (hs : s.lexemes = []) :
    nodesBody node rest s = (node >>= fun x => terminator x (.symbol .rightBrace) >>= fun _ =>
      rest >>= fun r => pure (x :: r.1, r.2)) s :=
  bind_ok (comes_of_not_comes (not_comes_of_nil (by simp) hs))

include hnode in
theorem needs_nodesBody (rest : Parse (List Node × UInt32)) :
    NeedsLexeme (nodesBody node rest) := by
  intro s r s' hs hr
  rw [nodesBody_of_nil rest hs] at hr
  exact (hnode.needs (by simp)).bind _ hs hr

include hnode hprogress in
theorem needs_nodes : NeedsLexeme (nodes node) := by
  intro s r s' hs hr
  rw [nodes_apply hprogress, nodesRound,
    bind_ok (skipSemicolons_of_not_comes (not_comes_of_nil (by simp) hs))] at hr
  exact needs_nodesBody hnode _ hs hr

include hnode hprogress hprogress' in
theorem resumes_nodes (s : ParserState) : Resumes room F (nodes node) (nodes node') s := by
  refine Resumes.congr ?_ (nodes_apply hprogress s) (nodes_apply hprogress' s)
    fun k => nodes_apply hprogress' _
  refine (resumes_skipSemicolons s).bind [.symbol .rightBrace] (fun _ s₁ hskip => ?_)
    (fun _ _ => finishes_nodesBody _) (by simp [Leads, Filler.token])
    fun _ _ => needs_nodesBody hnode _
  -- a node, and then the rounds after it
  have hrounds : Resumes room F
      (node >>= fun x => terminator x (.symbol .rightBrace) >>= fun _ =>
        nodes node >>= fun r => pure (x :: r.1, r.2))
      (node' >>= fun x => terminator x (.symbol .rightBrace) >>= fun _ =>
        nodes node' >>= fun r => pure (x :: r.1, r.2)) s₁ := by
    have hrest (x : Node) : Finishes [.symbol .rightBrace] F
        (nodes node' >>= fun r => pure (x :: r.1, r.2)) :=
      (finishes_nodes (F := F) hprogress').bind (fun r => .pure _) fun _ => id
    have hterminator (x : Node) : Piece room [] (· = .symbol .rightBrace)
        (terminator x (.symbol .rightBrace)) (terminator x (.symbol .rightBrace)) :=
      piece_terminator x (by simp)
    refine (hnode.resumes s₁).bind [.symbol .rightBrace] (fun x s₂ hx => ?_)
      (fun hroom x => ((hterminator x).finishes hroom).bind (fun _ => hrest x) rfl) rfl
      fun _ x s a s' hs ha => ?_
    · refine ((hterminator x).resumes s₂).bind [.symbol .rightBrace]
        (fun _ s₃ hclosing => ?_) (fun _ _ => hrest x) rfl
        fun _ _ => (needs_nodes hnode hprogress).bind _
      obtain ⟨l, hl, -⟩ := consumes_of_skipSemicolons hskip
      have h₁ := hl.length_le
      have h₂ := hprogress _ _ _ hx
      have h₃ := (takes_terminator x _).length_le hclosing
      exact Piece.after (fun r => .pure _) (resumes_nodes s₃) fun _ => id
    · obtain ⟨_, s₁, hclosing, hr⟩ := bind_eq_ok_iff.1 ha
      obtain ⟨l, hl⟩ := (takes_terminator x _).consumes hclosing
      exact (needs_nodes hnode hprogress).bind _ (hl.eq_nil hs) hr
  cases hs : s₁.lexemes with
  | nil =>
    exact .of_nil hs hrounds ((hnode.needs (by simp)).bind _) (nodesBody_of_nil _ hs)
      (nodesBody_of_nil _ hs) fun _ => finishes_nodesBody _
  | cons x rest =>
    have hempty : Piece room [.symbol .rightBrace] F
        (expect (.symbol .rightBrace) >>= fun close => pure (([], close.stop) : List Node × UInt32))
        (expect (.symbol .rightBrace) >>= fun close => pure ([], close.stop)) :=
      (piece_expect (.symbol .rightBrace)).andThen fun close => .pure _
    exact .comes hs (fun _ => hempty.resumes s₁) fun _ => hrounds
termination_by s.lexemes.length

include hnode hprogress hprogress' in
theorem piece_braced :
    Piece room [.symbol .leftBrace, .symbol .rightBrace] F (braced node) (braced node') := by
  have hnodes : Piece room [.symbol .rightBrace] F (nodes node) (nodes node') :=
    ⟨resumes_nodes hnode hprogress hprogress', fun _ => finishes_nodes hprogress',
      fun _ => needs_nodes hnode hprogress⟩
  exact (piece_expect (.symbol .leftBrace)).andThen fun opening =>
    hnodes.bind (fun r => .pure _) fun _ => id

end Blocks

/-! ### Expressions and blocks -/

theorem finishes_operators (levels : Nat) (place : Precedence) (left : Expr) :
    Finishes [] Stops (operators levels place left) := by
  intro s s' l hl hfillers hs'
  obtain rfl := List.map_eq_nil_iff.1 hfillers
  obtain rfl := hl.eq_of_nil
  refine ⟨left, operators_eq_ok levels left ?_⟩
  rw [precedence_of_stops hs']
  exact Nat.zero_le _

theorem finishes_expression (levels : Nat) (place : Precedence) :
    Finishes [.zero] Stops (expression (levels + 1) place) :=
  (finishes_primary (F := Stops)).bind (fun left => finishes_operators levels place left)
    fun _ => id

theorem finishes_block (levels : Nat) :
    Finishes [.symbol .leftBrace, .symbol .rightBrace] F (block (levels + 1)) := by
  have hnodes : Finishes [.symbol .rightBrace] F
      (nodes (node (expression levels .lowest) (block levels))) :=
    finishes_nodes fun _ _ _ => Fork.length_lt_of_node
  have hexpect : Piece True [.symbol .leftBrace] (fun _ => True) (expect (.symbol .leftBrace))
      (expect (.symbol .leftBrace)) := piece_expect (.symbol .leftBrace)
  have hopen := hexpect.finishes trivial
  exact hopen.bind (fun opening => hnodes.bind (fun r => .pure _) fun _ => id) trivial

/-- Operators go on if none comes next that binds tighter than the place. -/
theorem resumes_operators_of_le {place : Precedence} (levels levels' : Nat) (left : Expr)
    (h : s.precedence.rank ≤ place.rank) :
    Resumes room Stops (operators levels place left) (operators levels' place left) s := by
  refine .of_ok (operators_eq_ok levels left h) (operators_eq_ok levels' left h)
    fun k hk => operators_eq_ok levels' left ?_
  cases hs : s.lexemes with
  | nil =>
    rw [precedence_of_stops (ParserState.faces_followedBy_of_nil hs (hk hs))]
    exact Nat.zero_le _
  | cons x rest =>
    rw [ParserState.precedence, ParserState.operator?, ParserState.lookahead?_followedBy_of_cons hs]
    exact h

mutual

/-- **An expression** that may use more levels goes on with what another has read. -/
theorem piece_expression : ∀ levels levels' place, levels ≤ levels' → (room → levels < levels') →
    Piece room [.zero] Stops (expression levels place) (expression levels' place)
  | 0, levels', place, _, hroom => by
    refine ⟨fun s => .failTooDeep _, fun h => ?_, ?_⟩
    · obtain ⟨n, rfl⟩ := Nat.exists_eq_succ_of_ne_zero (Nat.ne_of_gt (hroom h))
      exact finishes_expression n place
    · rintro _ s a s' _ ⟨⟩
  | levels + 1, 0, _, hle, _ => absurd hle (Nat.not_succ_le_zero levels)
  | levels + 1, levels' + 1, place, hle, hroom => by
    have hle' := Nat.le_of_succ_le_succ hle
    have hroom' (h : room) := Nat.lt_of_succ_lt_succ (hroom h)
    have hexp (place : Precedence) := piece_expression levels levels' place hle' hroom'
    have hoperators (left : Expr) : Piece room [] Stops (operators levels place left)
        (operators levels' place left) :=
      ⟨resumes_operators levels levels' place left hle' hroom',
        fun _ => finishes_operators levels' place left, fun h => absurd rfl h⟩
    exact (piece_primary hexp (takes_expression levels) (takes_expression levels')
      (piece_block levels levels' hle' hroom')).bind hoperators fun _ => id
termination_by structural levels => levels

/-- The operators of an expression go on with those that have been read. -/
theorem resumes_operators : ∀ levels levels' place left, levels ≤ levels' →
    (room → levels < levels') → ∀ s, Resumes room Stops (operators levels place left)
      (operators levels' place left) s
  | 0, levels', place, left, _, _, s => by
    -- what binds no tighter than the place ends the expression
    by_cases h : s.precedence.rank ≤ place.rank
    · exact resumes_operators_of_le 0 levels' left h
    · obtain ⟨op, hop, hlt⟩ := exists_operator?_of_lt (Nat.lt_of_not_le h)
      exact (Resumes.failTooDeep _).congr (operators_zero_of_lt left hop hlt) rfl fun _ => rfl
  | levels + 1, 0, _, _, hle, _, _ => absurd hle (Nat.not_succ_le_zero levels)
  | levels + 1, levels' + 1, place, left, hle, hroom, s => by
    by_cases h : s.precedence.rank ≤ place.rank
    · exact resumes_operators_of_le _ _ left h
    · obtain ⟨op, hop, hlt⟩ := exists_operator?_of_lt (Nat.lt_of_not_le h)
      obtain ⟨span, rest, hs⟩ := ParserState.exists_cons_of_operator? hop
      have hle' := Nat.le_of_succ_le_succ hle
      have hroom' (h : room) := Nat.lt_of_succ_lt_succ (hroom h)
      have hexp (place : Precedence) := piece_expression levels levels' place hle' hroom'
      have hwrap :=
        resumes_wrap hexp (takes_expression levels) (takes_expression levels') left op hs
      refine Resumes.congr (hwrap.bind []
        (fun e s₁ _ => resumes_operators levels levels' place e hle' hroom' s₁)
        (fun _ e => finishes_operators levels' place e) (fun _ => id) fun h => absurd rfl h)
        (operators_succ_of_lt levels left hop hlt) (operators_succ_of_lt levels' left hop hlt)
        fun k => operators_succ_of_lt levels' left ?_ hlt
      rw [ParserState.operator?, ParserState.lookahead?_followedBy_of_cons hs]
      exact hop
termination_by structural levels => levels

/-- **A block** that may use more levels goes on with what another has read. -/
theorem piece_block : ∀ levels levels', levels ≤ levels' → (room → levels < levels') →
    Piece room [.symbol .leftBrace, .symbol .rightBrace] Stops (block levels) (block levels')
  | 0, levels', _, hroom => by
    refine ⟨fun s => .failTooDeep _, fun h => ?_, ?_⟩
    · obtain ⟨n, rfl⟩ := Nat.exists_eq_succ_of_ne_zero (Nat.ne_of_gt (hroom h))
      exact finishes_block n
    · rintro _ s a s' _ ⟨⟩
  | levels + 1, 0, hle, _ => absurd hle (Nat.not_succ_le_zero levels)
  | levels + 1, levels' + 1, hle, hroom => by
    have hle' := Nat.le_of_succ_le_succ hle
    have hroom' (h : room) := Nat.lt_of_succ_lt_succ (hroom h)
    exact piece_braced (piece_node (piece_expression levels levels' .lowest hle' hroom')
      (takes_expression levels _) (takes_expression levels' _)
      (piece_block levels levels' hle' hroom') (takes_block levels) (takes_block levels'))
      (fun _ _ _ => Fork.length_lt_of_node) fun _ _ _ => Fork.length_lt_of_node
termination_by structural levels => levels

end

/-- A node of a program that may use more levels. -/
theorem piece_nodeWithin {levels levels' : Nat} (hle : levels ≤ levels')
    (hroom : room → levels < levels') :
    Piece room [.zero] EndsNode (node (expression levels .lowest) (block levels))
      (node (expression levels' .lowest) (block levels')) :=
  piece_node (piece_expression levels levels' .lowest hle hroom) (takes_expression levels _)
    (takes_expression levels' _) (piece_block levels levels' hle hroom) (takes_block levels)
    (takes_block levels')

/-! ### Programs -/

section Programs

variable {levels levels' : Nat}

/-- The next node of a program after the semicolons. -/
def nextBody (levels : Nat) : Parse (Option Node) := do
  match (← get).lookahead? with
  | some ⟨.eof, _⟩ => return none
  | none => failAtEnd
  | some _ =>
    let x ← node (expression levels .lowest) (block levels)
    terminator x .eof
    return some x

theorem nextBody_of_faces (h : s.Faces (· = .eof)) : nextBody levels s = .ok none s := by
  obtain ⟨⟨token, span⟩, hx, rfl⟩ := h
  rw [nextBody, get_bind, hx]
  rfl

theorem nextBody_of_not_faces {x : Lexeme} (hx : s.lookahead? = some x) (hne : x.token ≠ .eof) :
    nextBody levels s = (node (expression levels .lowest) (block levels) >>= fun x =>
      terminator x .eof >>= fun _ => pure (some x)) s := by
  rw [nextBody, get_bind, hx]
  obtain ⟨token, span⟩ := x
  cases token <;> first | rfl | exact absurd rfl hne

theorem finishes_nextBody : Finishes [] (· = .eof) (nextBody levels) := by
  intro s s' l hl hfillers hs'
  obtain rfl := List.map_eq_nil_iff.1 hfillers
  obtain rfl := hl.eq_of_nil
  exact ⟨none, nextBody_of_faces hs'⟩

theorem nextNode_of_faces (h : s.Faces (· = .eof)) : nextNode levels s = .ok none s := by
  refine (bind_ok (skipSemicolons_of_not_comes ?_)).trans (nextBody_of_faces h)
  exact h.not_comes (by simp)

variable (hle : levels ≤ levels') (hroom : room → levels < levels')
include hle hroom

theorem resumes_nextBody (s : ParserState) :
    Resumes room (· = .eof) (nextBody levels) (nextBody levels') s := by
  by_cases hfaces : s.Faces (· = .eof)
  · refine .of_ok (nextBody_of_faces hfaces) (nextBody_of_faces hfaces)
      fun k hk => nextBody_of_faces ?_
    cases hs : s.lexemes with
    | nil => exact ParserState.faces_followedBy_of_nil hs (hk hs)
    | cons x rest => exact (faces_followedBy_of_cons hs k).2 hfaces
  · cases hs : s.lexemes with
    | nil =>
      -- at the end of the lexemes only the end of the text would do
      have hfails {levels : Nat} : nextBody levels s = .error s.endError s := by
        cases hending : s.ending with
        | eof offset =>
          refine absurd ⟨⟨.eof, .point offset⟩, ?_, rfl⟩ hfaces
          rw [ParserState.lookahead?, hs, hending]
        | broken error =>
          rw [nextBody, get_bind, ParserState.lookahead?, hs, hending]
          rfl
      exact .atEnd hs hfails hfails fun _ => finishes_nextBody
    | cons x rest =>
      have hx := ParserState.lookahead?_of_cons hs
      have hne : x.token ≠ .eof := fun heof => hfaces ⟨x, hx, heof⟩
      -- a node, and what has to follow it
      have hterminator (x : Node) : Piece room [] (· = .eof) (terminator x .eof)
          (terminator x .eof) := piece_terminator x (by simp)
      have hnode := (piece_nodeWithin hle hroom).bind (G := (· = .eof)) (fun x =>
        (hterminator x).bind (fun _ => .pure (some x)) fun _ => id) (by rintro _ rfl; rfl)
      exact (hnode.resumes s).congr (nextBody_of_not_faces hx hne) (nextBody_of_not_faces hx hne)
        fun k => nextBody_of_not_faces
          ((ParserState.lookahead?_followedBy_of_cons hs k).trans hx) hne

theorem resumes_nextNode (s : ParserState) :
    Resumes room (· = .eof) (nextNode levels) (nextNode levels') s :=
  (resumes_skipSemicolons s).bind []
    (fun _ s₁ _ => resumes_nextBody hle hroom s₁) (fun _ _ => finishes_nextBody)
    (by rintro _ rfl; simp) fun h => absurd rfl h

omit hle hroom in
theorem finishes_programNodes : Finishes [] (· = .eof) (programNodes levels) := by
  intro s s' l hl hfillers hs'
  obtain rfl := List.map_eq_nil_iff.1 hfillers
  obtain rfl := hl.eq_of_nil
  refine ⟨[], (programNodes_apply levels s').trans ?_⟩
  rw [programRound, bind_ok (nextNode_of_faces hs')]
  rfl

/-- **The nodes of a program** that may use more levels go on with those that have been read. -/
theorem resumes_programNodes (s : ParserState) :
    Resumes room (· = .eof) (programNodes levels) (programNodes levels') s := by
  refine Resumes.congr ?_ (programNodes_apply levels s) (programNodes_apply levels' s)
    fun k => programNodes_apply levels' _
  refine (resumes_nextNode hle hroom s).bind [] (fun next s₁ hnext => ?_)
    (fun _ next => ?_) (fun _ => id) fun h => absurd rfl h
  · cases next with
    | none => exact .pure []
    | some x =>
      have hlt := length_lt_of_nextNode hnext
      exact Piece.after (fun xs => .pure (x :: xs)) (resumes_programNodes s₁) fun _ => id
  · cases next with
    | none => exact .pure []
    | some x => exact finishes_programNodes.bind (fun xs => .pure (x :: xs)) fun _ => id
termination_by s.lexemes.length

end Programs

end Script.Parse
