import Script.Proofs.Lexeme.Order
import Script.Proofs.Parser.Language
import Script.Proofs.Parser.Shift
import Script.Proofs.Parser.Text
import Script.Proofs.Parser.Unfinished

/-!
# Texts joined by a semicolon

The parser carries nothing from one node to the next but where the last lexeme ended, and that is
forgotten with the first lexeme of the next node. So a text that has been accepted may be followed
by a semicolon on a line of its own and by another text: the nodes of the other text come after
those of the first, and its errors stay errors, with all spans moved.

* `Parse.withoutState_programNodes_endingAt`: what comes before the first lexeme does not matter;
* `Parse.programNodes_followedBy`: a program, a semicolon, and what comes after;
* `Program.parse_joined`: two texts joined are read as one after the other.
-/

namespace Script

open Text (byteLength)

/-- The state after a last lexeme that ended elsewhere. -/
def ParserState.endingAt (s : ParserState) (stop : UInt32) : ParserState :=
  { s with lastStop := stop }

namespace Parse

variable {α β : Type} {s s' k : ParserState} {x : Lexeme} {rest : List Lexeme} {levels : Nat}

/-! ### Where the last lexeme ended -/

/-- A parser treats two states alike: it does the same from both, or it fails at once, with the
same error. -/
def Alike (s t : ParserState) (p : Parse α) : Prop :=
  p t = p s ∨ ∃ error, p s = .error error s ∧ p t = .error error t

namespace Alike

variable {t : ParserState} {p q : Parse α}

theorem bind (h : Alike s t p) (f : α → Parse β) : Alike s t (p >>= f) := by
  rcases h with h | ⟨error, hs, ht⟩
  · exact .inl (bind_congr_left h)
  · exact .inr ⟨error, bind_error hs, bind_error ht⟩

theorem congr (h : Alike s t p) (hs : q s = p s) (ht : q t = p t) : Alike s t q := by
  rw [Alike, hs, ht]
  exact h

theorem withoutState_eq (h : Alike s t p) : withoutState (p t) = withoutState (p s) := by
  rcases h with h | ⟨error, hs, ht⟩
  · rw [h]
  · rw [hs, ht]
    rfl

end Alike

theorem alike_throw (t : ParserState) (error : ParseError) : Alike s t (throw error : Parse α) :=
  .inr ⟨error, rfl, rfl⟩

section FirstLexeme

variable (hs : s.lexemes = x :: rest) (stop : UInt32)
include hs

theorem lookahead?_endingAt : (s.endingAt stop).lookahead? = s.lookahead? := by
  rw [ParserState.endingAt, ParserState.lookahead?, ParserState.lookahead?, hs]

theorem advance_endingAt : (s.endingAt stop).advance = s.advance := by
  rw [ParserState.endingAt, ParserState.advance, ParserState.advance, hs]

theorem alike_advance : Alike s (s.endingAt stop) advance := by
  refine .inl ?_
  rw [advance_apply, advance_apply, advance_endingAt hs]

theorem alike_failTooDeep : Alike s (s.endingAt stop) (failTooDeep : Parse α) := by
  refine .inr ⟨s.depthError, rfl, ?_⟩
  show EStateM.Result.error (s.endingAt stop).depthError _ = _
  unfold ParserState.depthError
  rw [lookahead?_endingAt hs, ParserState.lookahead?_of_cons hs]

theorem alike_expect (token : Token) : Alike s (s.endingAt stop) (expect token) := by
  have hat : Alike s (s.endingAt stop)
      (if x.token = token then advance >>= fun _ => pure x.span
        else throw ⟨.unexpectedToken x.token token, x.span⟩) := by
    split
    · exact (alike_advance hs stop).bind _
    · exact alike_throw _ _
  refine hat.congr ?_ ?_ <;> rw [expect, get_bind]
  · rw [hs]
  · rw [ParserState.endingAt, hs]

theorem alike_primaryAt (expression : Precedence → Parse Expr) (block : Parse Block) (x : Lexeme) :
    Alike s (s.endingAt stop) (primaryAt expression block x) := by
  obtain ⟨token, span⟩ := x
  have hadvance (f : Unit → Parse Expr) : Alike s (s.endingAt stop) (advance >>= f) :=
    (alike_advance hs stop).bind f
  unfold primaryAt
  dsimp only
  cases token with
  | name | integer | string => exact hadvance _
  | comment | eof => exact alike_throw _ _
  | keyword word =>
    cases word with
    | trueWord | falseWord | functionWord => exact hadvance _
    | _ => exact alike_throw _ _
  | symbol sign =>
    cases sign with
    | leftParen | leftBracket | leftBrace | plus | minus | bang => exact hadvance _
    | _ => exact alike_throw _ _

theorem alike_expression (levels : Nat) (place : Precedence) :
    Alike s (s.endingAt stop) (expression levels place) := by
  cases levels with
  | zero => exact alike_failTooDeep hs stop
  | succ levels =>
    refine Alike.bind ((alike_primaryAt hs stop (expression levels) (block levels) x).congr ?_ ?_) _
      <;> rw [primary, get_bind]
    · rw [hs]
    · rw [ParserState.endingAt, hs]

theorem alike_node (levels : Nat) :
    Alike s (s.endingAt stop) (node (expression levels .lowest) (block levels)) := by
  have hat : Alike s (s.endingAt stop)
      (nodeAt (expression levels .lowest) (block levels) x) := by
    unfold nodeAt
    split
    · exact (alike_expect hs stop _).bind _
    · exact (alike_expect hs stop _).bind _
    · exact ((alike_expect hs stop _).bind _).congr
        (conditional_apply (takes_expression levels _) (takes_block levels) s)
        (conditional_apply (takes_expression levels _) (takes_block levels) _)
    · exact (alike_expression hs stop levels _).bind _
  exact hat.congr (node_of_cons hs) (node_of_cons hs)

end FirstLexeme

/-! ### One node after another -/

/-- A semicolon before a program is passed over. -/
theorem programNodes_of_semicolon {span : Span}
    (hs : s.lexemes = ⟨.symbol .semicolon, span⟩ :: rest) :
    programNodes levels s = programNodes levels s.advance := by
  rw [programNodes_apply, programNodes_apply _ s.advance]
  exact bind_congr_left (bind_congr_left (skipSemicolons_of_comes hs))

theorem nextNode_of_cons (hs : s.lexemes = x :: rest) (hx : x.token ≠ .symbol .semicolon)
    (hne : x.token ≠ .eof) :
    nextNode levels s = (node (expression levels .lowest) (block levels) >>= fun n =>
      terminator n .eof >>= fun _ => pure (some n)) s := by
  have hlook := ParserState.lookahead?_of_cons hs
  refine (bind_ok (skipSemicolons_of_not_comes fun hcomes => hx ?_)).trans
    (nextBody_of_not_faces hlook hne)
  rw [ParserState.Comes, hlook] at hcomes
  exact Option.some.inj (beq_iff_eq.1 hcomes)

theorem programNodes_of_nil (hs : s.lexemes = []) : programNodes levels s =
    match s.ending with
    | .eof _ => .ok [] s
    | .broken error => .error ⟨.lexical error.cause, error.span⟩ s := by
  rw [programNodes_apply, programRound]
  have hskip : nextNode levels s = nextBody levels s :=
    bind_ok (skipSemicolons_of_not_comes (not_comes_of_nil (by simp) hs))
  rw [bind_congr_left hskip, nextBody, bind_congr_left get_bind, ParserState.lookahead?, hs]
  cases hending : s.ending with
  | eof offset => rfl
  | broken error =>
    show EStateM.Result.error s.endError s = _
    rw [ParserState.endError, hending]

theorem eq_nil_of_programNodes {nodes : List Node} (hs : s.lexemes = [])
    (h : programNodes levels s = .ok nodes s') : nodes = [] := by
  rw [programNodes_of_nil hs] at h
  cases hending : s.ending with
  | eof offset =>
    rw [hending] at h
    cases h
    rfl
  | broken error =>
    rw [hending] at h
    cases h

/-- **Where the last lexeme before a program ended** does not matter to it. -/
theorem withoutState_programNodes_endingAt (hproper : ∀ x ∈ s.lexemes, x.token ≠ .eof)
    (stop : UInt32) : withoutState (programNodes levels (s.endingAt stop)) =
      withoutState (programNodes levels s) := by
  cases hs : s.lexemes with
  | nil =>
    rw [programNodes_of_nil hs, programNodes_of_nil (s := s.endingAt stop) hs,
      ParserState.endingAt]
    cases s.ending <;> rfl
  | cons x rest =>
    by_cases hx : x.token = .symbol .semicolon
    · obtain ⟨token, span⟩ := x
      obtain rfl : token = .symbol .semicolon := hx
      rw [programNodes_of_semicolon hs, programNodes_of_semicolon (s := s.endingAt stop) hs,
        advance_endingAt hs]
    · have hne : x.token ≠ .eof := hproper x (by rw [hs]; simp)
      rw [programNodes_apply, programNodes_apply _ s]
      refine Alike.withoutState_eq (Alike.bind ?_ _)
      exact ((alike_node hs stop levels).bind _).congr (nextNode_of_cons hs hx hne)
        (nextNode_of_cons (s := s.endingAt stop) hs hx hne)

theorem advance_followedBy_of_nil (hs : s.lexemes = [])
    (hk : k.lexemes = x :: rest) : (s.followedBy k).advance = k.advance := by
  rw [ParserState.followedBy, ParserState.advance, ParserState.advance, hs, hk]
  rfl

/-- What has to follow a node is found in front of a semicolon where it is found at the end of
the text. The semicolon itself is taken only if nothing else is left before it. -/
theorem terminator_followedBy {n : Node} {span : Span} (h : terminator n .eof s = .ok () s')
    (hk : k.lexemes = ⟨.symbol .semicolon, span⟩ :: rest) :
    terminator n .eof (s.followedBy k) = .ok () (s'.followedBy k) ∨
      s'.lexemes = [] ∧ terminator n .eof (s.followedBy k) = .ok () k.advance := by
  cases hs : s.lexemes with
  | nil =>
    obtain ⟨l, hl⟩ := (takes_terminator n .eof).consumes h
    have hsemi : (s.followedBy k).lexemes = ⟨.symbol .semicolon, span⟩ :: rest := by
      rw [ParserState.followedBy, hs]
      exact hk
    refine .inr ⟨hl.eq_nil hs, ?_⟩
    rw [terminator_of_semicolon (.advance hsemi), advance_followedBy_of_nil hs hk]
  | cons x rest₁ =>
    have hat := terminator_of_cons n .eof hs
    have hat' := terminator_of_cons n .eof (ParserState.lexemes_followedBy hs k)
    have hresumes :
        Resumes False (fun _ => True) (terminatorAt n .eof x) (terminatorAt n .eof x) s :=
      resumes_terminatorAt n .eof hs
    have honward := hresumes.onward (hat.symm.trans h) k fun _ =>
      ⟨_, ParserState.lookahead?_of_cons hk, trivial⟩
    exact .inl (hat'.trans honward)

theorem exists_consumes_of_nextNode {next : Option Node} (h : nextNode levels s = .ok next s') :
    ∃ l, Consumes s l s' := by
  have hresumes : Resumes False (· = .eof) (nextNode levels) (nextNode levels) s :=
    resumes_nextNode (Nat.le_refl levels) False.elim s
  exact hresumes.exists_consumes h

/-- A node is read alike in front of a semicolon, which may be taken with it. -/
theorem nextNode_followedBy {n : Node} {span : Span} {rest₁ : List Lexeme}
    (hs : s.lexemes = x :: rest₁) (hx : x.token ≠ .symbol .semicolon) (hne : x.token ≠ .eof)
    (h : nextNode levels s = .ok (some n) s')
    (hk : k.lexemes = ⟨.symbol .semicolon, span⟩ :: rest) :
    nextNode levels (s.followedBy k) = .ok (some n) (s'.followedBy k) ∨
      s'.lexemes = [] ∧ nextNode levels (s.followedBy k) = .ok (some n) k.advance := by
  have hcons := ParserState.lexemes_followedBy hs k
  rw [nextNode_of_cons hs hx hne] at h
  obtain ⟨_, s₁, hnode, h⟩ := bind_eq_ok_iff.1 h
  obtain ⟨_, _, hterminator, h⟩ := bind_eq_ok_iff.1 h
  cases h
  have hpiece : Piece False [.zero] EndsNode (node (expression levels .lowest) (block levels))
      (node (expression levels .lowest) (block levels)) :=
    piece_nodeWithin (Nat.le_refl levels) False.elim
  have honward := (hpiece.resumes s).onward hnode k fun _ =>
    ⟨_, ParserState.lookahead?_of_cons hk, rfl⟩
  rw [nextNode_of_cons hcons hx hne, bind_ok honward]
  rcases terminator_followedBy hterminator hk with hafter | ⟨hnil, hafter⟩
  · exact .inl (bind_ok hafter)
  · exact .inr ⟨hnil, bind_ok hafter⟩

/-- **The nodes of a program are followed by those of another one** behind a semicolon. -/
theorem programNodes_followedBy {span : Span} (hk : k.lexemes = ⟨.symbol .semicolon, span⟩ :: rest)
    (s : ParserState) (hproper : ∀ x ∈ s.lexemes, x.token ≠ .eof) {nodes : List Node}
    (h : programNodes levels s = .ok nodes s') :
    programNodes levels (s.followedBy k) =
      (programNodes levels >>= fun more => pure (nodes ++ more)) k.advance := by
  cases hs : s.lexemes with
  | nil =>
    obtain rfl := eq_nil_of_programNodes hs h
    have hsemi : (s.followedBy k).lexemes = ⟨.symbol .semicolon, span⟩ :: rest := by
      rw [ParserState.followedBy, hs]
      exact hk
    rw [programNodes_of_semicolon hsemi, advance_followedBy_of_nil hs hk]
    exact congrFun (bind_pure (programNodes levels)).symm _
  | cons x rest₁ =>
    have hcons := ParserState.lexemes_followedBy hs k
    -- what is left of proper lexemes is proper
    have hproper' {s₁ : ParserState} {l : List Lexeme} (hl : Consumes s l s₁) :
        ∀ y ∈ s₁.lexemes, y.token ≠ .eof := by
      intro y hy
      refine hproper y ?_
      rw [hl.lexemes_eq]
      exact List.mem_append_right l hy
    by_cases hx : x.token = .symbol .semicolon
    · obtain ⟨token, span'⟩ := x
      obtain rfl : token = .symbol .semicolon := hx
      have hlt := (Consumes.advance hs).length_lt (by simp)
      rw [programNodes_of_semicolon hs] at h
      rw [programNodes_of_semicolon hcons, ParserState.advance_followedBy hs]
      exact programNodes_followedBy hk s.advance (hproper' (.advance hs)) h
    · have hne : x.token ≠ .eof := hproper x (by rw [hs]; simp)
      rw [programNodes_apply, programRound] at h
      obtain ⟨next, s₁, hnext, h⟩ := bind_eq_ok_iff.1 h
      -- a program that ends here would have ended with the end of the text
      cases next with
      | none =>
        rw [nextNode_of_cons hs hx hne] at hnext
        obtain ⟨_, _, -, hnext⟩ := bind_eq_ok_iff.1 hnext
        obtain ⟨_, _, -, hnext⟩ := bind_eq_ok_iff.1 hnext
        cases hnext
      | some n =>
        obtain ⟨more, s₂, hmore, h⟩ := bind_eq_ok_iff.1 h
        cases h
        have hlt := length_lt_of_nextNode hnext
        rw [programNodes_apply, programRound]
        -- the semicolon between the texts stays for the next round, or ends the last node
        rcases nextNode_followedBy hs hx hne hnext hk with hafter | ⟨hnil, hafter⟩
        · obtain ⟨l, hl⟩ := exists_consumes_of_nextNode hnext
          rw [bind_ok hafter]
          show (programNodes levels >>= fun xs => pure (n :: xs)) (s₁.followedBy k) = _
          rw [bind_congr_left (programNodes_followedBy hk s₁ (hproper' hl) hmore), bind_assoc]
          rfl
        · obtain rfl := eq_nil_of_programNodes hnil hmore
          rw [bind_ok hafter]
          rfl
termination_by s.lexemes.length

/-! ### Moving -/

theorem withoutState_bind_pure (p : Parse α) (f : α → β) (s : ParserState) :
    withoutState ((p >>= fun a => pure (f a)) s) = (withoutState (p s)).map f := by
  cases hp : p s with
  | ok a s' =>
    rw [bind_ok hp]
    rfl
  | error error s' =>
    rw [bind_error hp]
    rfl

theorem moves_programNodes {along : UInt32 → UInt32}
    (hkeeps : ∀ a b, a ≤ b → along a ≤ along b) (s : ParserState) :
    programNodes levels (s.move along) =
      moved along (List.map (·.move along)) (programNodes levels s) := by
  rw [programNodes, get_bind, ParserState.length_move, moves_programWithin hkeeps]
  rfl

/-- The nodes of a program moved, or its error moved. -/
def movedNodes (along : UInt32 → UInt32) :
    Except ParseError (List Node) → Except ParseError (List Node)
  | .ok nodes => .ok (nodes.map (·.move along))
  | .error error => .error (error.move along)

theorem movedNodes_movedNodes (f g : UInt32 → UInt32) (result : Except ParseError (List Node)) :
    movedNodes g (movedNodes f result) = movedNodes (g ∘ f) result := by
  cases result with
  | error error => rfl
  | ok nodes => simp [movedNodes, Function.comp_def, Node.move_move]

theorem withoutState_programNodes_move {along : UInt32 → UInt32}
    (hkeeps : ∀ a b, a ≤ b → along a ≤ along b) (s : ParserState) :
    withoutState (programNodes levels (s.move along)) =
      movedNodes along (withoutState (programNodes levels s)) := by
  rw [moves_programNodes hkeeps]
  cases programNodes levels s <;> rfl

/-- Only the offsets that occur count: it is enough that their order is kept, up to a bound that
none of them exceeds. -/
theorem withoutState_programNodes_move_of_le {along : UInt32 → UInt32} {bound : UInt32}
    (hkeeps : ∀ a b, a ≤ b → b ≤ bound → along a ≤ along b) {s : ParserState}
    (hs : s.move (min · bound) = s) :
    withoutState (programNodes levels (s.move along)) =
      movedNodes along (withoutState (programNodes levels s)) := by
  have hcut : ∀ a b : UInt32, a ≤ b → min a bound ≤ min b bound := by
    intro a b h
    have hle := UInt32.le_iff_toNat_le.1 h
    rw [UInt32.le_iff_toNat_le, Offset.toNat_min, Offset.toNat_min]
    omega
  have hbound (a : UInt32) : min a bound ≤ bound := by
    rw [UInt32.le_iff_toNat_le, Offset.toNat_min]
    exact Nat.min_le_right _ _
  -- cutting off at the bound changes neither the state nor what is read from it
  have hsame : withoutState (programNodes levels (s.move (min · bound))) = _ :=
    withoutState_programNodes_move hcut s
  have hmoved : withoutState (programNodes levels (s.move (along ∘ (min · bound)))) = _ :=
    withoutState_programNodes_move (fun a b h => hkeeps _ _ (hcut a b h) (hbound b)) s
  rw [hs] at hsame
  calc withoutState (programNodes levels (s.move along))
      = withoutState (programNodes levels ((s.move (min · bound)).move along)) := by rw [hs]
    _ = movedNodes (along ∘ (min · bound)) (withoutState (programNodes levels s)) := by
        rw [ParserState.move_move]
        exact hmoved
    _ = movedNodes along (withoutState (programNodes levels s)) := by
        rw [← movedNodes_movedNodes, ← hsame]

end Parse

/-! ### Two texts -/

theorem LexemeStream.ofText_semicolon :
    ofText ";" = ⟨[⟨.symbol .semicolon, ⟨0, 1⟩⟩], [], .eof 1⟩ := by
  rfl

/-- The stream of a text with a semicolon below it, and with another text below that. -/
theorem LexemeStream.ofText_joined {text : String} {offset : UInt32}
    (h : (ofText text).ending = .eof offset) (more : String) :
    ofText (text ++ "\n;\n" ++ more) = (ofText text).followedBy
      (((ofText ";").move (· + .ofNat (byteLength text.toList + 1))).followedBy
        ((ofText more).move (· + .ofNat (byteLength text.toList + 3)))) := by
  have htext : text ++ "\n;\n" ++ more = text ++ "\n" ++ (";" ++ "\n" ++ more) := by
    rw [show "\n;\n" = "\n" ++ ";" ++ "\n" from rfl]
    simp only [String.append_assoc]
  have hending : (ofText ";").ending = .eof 1 := by rw [ofText_semicolon]
  have htwice :
      (· + .ofNat (byteLength text.toList + 1)) ∘ (· + .ofNat (byteLength ";".toList + 1)) =
      ((· + .ofNat (byteLength text.toList + 3)) : UInt32 → UInt32) := by
    funext x
    show x + .ofNat 2 + .ofNat (byteLength text.toList + 1) =
      x + .ofNat (byteLength text.toList + 3)
    rw [UInt32.add_assoc, ← UInt32.ofNat_add, Nat.add_comm 2]
  rw [htext, ofText_newline h, ofText_newline hending, move_followedBy, move_move, htwice]

/-- No offset in the stream of a text is greater than the number of its bytes. -/
theorem ParserState.move_min_ofText {text : String} (hlt : byteLength text.toList < 2 ^ 32) :
    (ofStream (.ofText text)).move (min · (.ofNat (byteLength text.toList))) =
      ofStream (.ofText text) := by
  have hplaced := LexemeStream.placed_ofChars hlt
  have hbound : (UInt32.ofNat (byteLength text.toList)).toNat = byteLength text.toList :=
    UInt32.toNat_ofNat_of_lt' hlt
  -- a span that can be marked lies in the text, so the bound changes neither end
  have hspan {span : Span} (h : Text.Marks text.toList span) :
      span.move (min · (.ofNat (byteLength text.toList))) = span := by
    have hstop : span.stop ≤ .ofNat (byteLength text.toList) := by
      rw [UInt32.le_iff_toNat_le, hbound]
      exact h.stop_le
    exact congrArg₂ Span.mk (Offset.min_eq_left (UInt32.le_trans h.start_le_stop hstop))
      (Offset.min_eq_left hstop)
  have hlexemes : (LexemeStream.ofText text).lexemes.map
      (·.move (min · (.ofNat (byteLength text.toList)))) = (LexemeStream.ofText text).lexemes :=
    (List.map_congr_left fun x hx => congrArg (Lexeme.mk x.token)
      (hspan (hplaced.lexemes x hx))).trans (List.map_id _)
  have hending : (LexemeStream.ofText text).ending.move
      (min · (.ofNat (byteLength text.toList))) = (LexemeStream.ofText text).ending := by
    have hmarks : Text.Marks text.toList (LexemeStream.ofText text).ending.span := hplaced.ending
    cases hcase : (LexemeStream.ofText text).ending with
    | eof offset =>
      rw [hcase] at hmarks
      exact congrArg Ending.eof (Span.mk.inj (hspan hmarks)).1
    | broken error =>
      rw [hcase] at hmarks
      exact congrArg (fun span => Ending.broken ⟨error.cause, span⟩) (hspan hmarks)
  have hzero : min 0 (.ofNat (byteLength text.toList)) = (0 : UInt32) :=
    Offset.min_eq_left UInt32.zero_le
  rw [ofStream, move, hlexemes, hending, hzero]

namespace Program

open Parse

/-- The nodes of two texts joined by a semicolon, of which the first is accepted, are those of
the first and then those of the second, moved. If the second text is rejected, so are both together,
with the same error, moved. -/
theorem parse_joined_map_nodes {first second : String} {p : Program} (h : parse first = .ok p)
    (hlt : byteLength first.toList + 3 + byteLength second.toList < 2 ^ 32) :
    (parse (first ++ "\n;\n" ++ second)).map (·.nodes) =
      (movedNodes (· + .ofNat (byteLength first.toList + 3))
        ((parse second).map (·.nodes))).map (p.nodes ++ ·) := by
  obtain ⟨offset, hending, -⟩ := isProgram_of_parse h
  obtain ⟨s, hfirst⟩ := exists_programNodes_of_parse h
  have hsecond : byteLength second.toList < 2 ^ 32 := Nat.lt_of_le_of_lt (Nat.le_add_left _ _) hlt
  rw [parse_map_nodes, LexemeStream.ofText_joined hending, LexemeStream.ofStream_followedBy,
    LexemeStream.ofText_semicolon,
    programNodes_followedBy rfl _ LexemeStream.token_ne_eof hfirst, withoutState_bind_pure,
    parse_map_nodes second]
  generalize byteLength first.toList + 3 = distance at hlt ⊢
  have hproper : ∀ x ∈ ((ParserState.ofStream (.ofText second)).move
      (· + .ofNat distance)).lexemes, x.token ≠ .eof := by
    intro x hx
    obtain ⟨y, hy, rfl⟩ := List.mem_map.1 hx
    exact LexemeStream.token_ne_eof y hy
  -- no offset of the second text is moved out of 32 bits
  have hkeeps : ∀ a b : UInt32, a ≤ b → b ≤ .ofNat (byteLength second.toList) →
      a + .ofNat distance ≤ b + .ofNat distance := by
    intro a b hle hbound
    rw [UInt32.le_iff_toNat_le] at hle hbound ⊢
    rw [UInt32.toNat_ofNat_of_lt' hsecond] at hbound
    rw [UInt32.toNat_add, UInt32.toNat_add,
      UInt32.toNat_ofNat_of_lt' (Nat.lt_of_le_of_lt (Nat.le_add_right _ _) hlt)]
    omega
  refine congrArg (Except.map (p.nodes ++ ·)) ?_
  show withoutState (programNodes maxNesting (((ParserState.ofStream (.ofText second)).move
    (· + .ofNat distance)).endingAt _)) = _
  rw [withoutState_programNodes_endingAt hproper,
    withoutState_programNodes_move_of_le hkeeps (ParserState.move_min_ofText hsecond)]

/-- **Two texts joined by a semicolon are read as one after the other**, if the first one is
accepted and both together are shorter than 4 GiB: the nodes of the second come after those of the
first, moved by the bytes before them, or the error of the second is the error of both, moved in the
same way. -/
theorem parse_joined {first second : String} {p : Program} (h : parse first = .ok p)
    (hlt : byteLength (first ++ "\n;\n" ++ second).toList < 2 ^ 32) :
    (∀ q, parse second = .ok q → ∃ r, parse (first ++ "\n;\n" ++ second) = .ok r ∧
      r.nodes = p.nodes ++
        q.nodes.map (·.move (· + .ofNat (byteLength first.toList + 3)))) ∧
    ∀ error, parse second = .error error →
      parse (first ++ "\n;\n" ++ second) =
        .error (error.move (· + .ofNat (byteLength first.toList + 3))) := by
  have hlength : byteLength (first ++ "\n;\n" ++ second).toList =
      byteLength first.toList + 3 + byteLength second.toList := by
    rw [String.toList_append, String.toList_append, Text.byteLength_append, Text.byteLength_append]
    rfl
  have hnodes := parse_joined_map_nodes h (hlength ▸ hlt)
  -- the joined text is accepted exactly if the second one is
  cases hjoined : parse (first ++ "\n;\n" ++ second) with
  | ok r =>
    rw [hjoined] at hnodes
    constructor
    · intro q hq
      rw [hq] at hnodes
      exact ⟨r, rfl, Except.ok.inj hnodes⟩
    · intro error herror
      rw [herror] at hnodes
      cases hnodes
  | error error =>
    rw [hjoined] at hnodes
    constructor
    · intro q hq
      rw [hq] at hnodes
      cases hnodes
    · intro error' herror
      rw [herror] at hnodes
      cases hnodes
      rfl

/-- A `return` without a value in front of a comment, and a text that ends too early. -/
theorem parse_joined_return : parse "return // none" = .ok ⟨[.returning none ⟨0, 6⟩], 0, 6⟩ ∧
    byteLength ("return // none" ++ "\n;\n" ++ "1 +").toList < 2 ^ 32 ∧
    parse "1 +" = .error ⟨.unexpectedEnd, .point 3⟩ ∧
    parse ("return // none" ++ "\n;\n" ++ "1 +") = .error ⟨.unexpectedEnd, .point 20⟩ := by
  have hfirst : parse "return // none" = .ok ⟨[.returning none ⟨0, 6⟩], 0, 6⟩ := by rfl
  have hsecond : parse "1 +" = .error ⟨.unexpectedEnd, .point 3⟩ := by rfl
  have hlt : byteLength ("return // none" ++ "\n;\n" ++ "1 +").toList < 2 ^ 32 := by
    decide +kernel
  exact ⟨hfirst, hlt, hsecond, (parse_joined hfirst hlt).2 _ hsecond⟩

end Program

end Script
