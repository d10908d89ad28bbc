import Mathlib.Order.Bounds.Basic
import Script.Proofs.Parser.Language
import Script.Proofs.Parser.Nesting
import Script.Proofs.Syntax.Derivation
import Script.Proofs.Syntax.Spelling

/-!
# The heights that accepted texts attain

The heights that the levels of a program allow are attained, all by the same text: an array in an
array, and so on, each called as often as there are levels left. The text is accepted because the
levels of what is called are free again when the calls begin. And there is no bound on what is
accepted if every `else if` counts.

* `expression_tower`: an array in an array takes all levels, and is as high as they allow;
* `gives_elseIfs`: an `else if` takes no level;
* `Program.isGreatest_heights`: the heights of the programs that are accepted.
-/

namespace Script

open Grammar

/-! ### Texts -/

/-- Calls without arguments, one after another. -/
def emptyCalls : Nat → String
  | 0 => ""
  | n + 1 => "()" ++ emptyCalls n

/-- An array in an array, and so on, each called once for every array that is inside it. -/
def tower : Nat → String
  | 0 => "[]"
  | n + 1 => "[" ++ tower n ++ "]" ++ emptyCalls (n + 1)

/-- An `if` and some `else if`s after it. -/
def elseIfs : Nat → String
  | 0 => "if x {}"
  | n + 1 => "if x {} else " ++ elseIfs n

/-- The tokens of calls without arguments. -/
def emptyCallTokens : Nat → List Token
  | 0 => []
  | n + 1 => .symbol .leftParen :: .symbol .rightParen :: emptyCallTokens n

/-- The tokens of an array in an array. -/
def towerTokens : Nat → List Token
  | 0 => [.symbol .leftBracket, .symbol .rightBracket]
  | n + 1 => .symbol .leftBracket :: (towerTokens n ++ [.symbol .rightBracket]) ++
      emptyCallTokens (n + 1)

/-- The tokens of an `if` that does nothing. -/
def emptyIfTokens : List Token :=
  [.keyword .ifWord, .name "x", .symbol .leftBrace, .symbol .rightBrace]

/-- The tokens of an `if` and some `else if`s. -/
def elseIfTokens : Nat → List Token
  | 0 => emptyIfTokens
  | n + 1 => emptyIfTokens ++ .keyword .elseWord :: elseIfTokens n

theorem head?_towerTokens (n : Nat) : (towerTokens n).head? = some (.symbol .leftBracket) := by
  cases n <;> rfl

theorem head?_elseIfTokens (n : Nat) : (elseIfTokens n).head? = some (.keyword .ifWord) := by
  cases n <;> rfl

theorem exists_cons_of_head? {token : Token} {tokens : List Token} {l : List Lexeme}
    (hl : l.map (·.token) = tokens) (h : tokens.head? = some token) :
    ∃ span rest, l = ⟨token, span⟩ :: rest := by
  obtain ⟨ts, rfl⟩ := List.head?_eq_some_iff.1 h
  obtain ⟨span, rest, rfl, -⟩ := exists_of_map_cons hl
  exact ⟨span, rest, rfl⟩

theorem prints_emptyCalls (n : Nat) : Prints (emptyCalls n) (emptyCallTokens n) := by
  induction n with
  | zero => exact fun _ _ hrest _ => hrest
  | succ n ih =>
    intro rest ts hrest hapart
    have hclose := (ih hrest hapart).symbol .rightParen fun _ => rfl
    have hopen := hclose.symbol .leftParen fun _ => rfl
    rw [emptyCalls, String.toList_append, List.append_assoc]
    exact hopen

theorem prints_tower (n : Nat) : Prints (tower n) (towerTokens n) := by
  induction n with
  | zero =>
    intro rest ts hrest _
    exact (hrest.symbol .rightBracket fun _ => rfl).symbol .leftBracket fun _ => rfl
  | succ n ih =>
    refine Prints.append ?_ (prints_emptyCalls (n + 1)) fun cs => ?_
    · exact ih.enclosed .leftBracket .rightBracket (fun _ => rfl) fun _ => rfl
    · rw [emptyCalls, String.toList_append, List.append_assoc]
      exact apart_cons _ rfl

theorem prints_emptyIf : Prints "if x {}" emptyIfTokens := by
  intro rest ts hrest _
  have hblock := (hrest.symbol .rightBrace fun _ => rfl).symbol .leftBrace fun _ => rfl
  have hx : (Token.name "x").Regular := ⟨⟨⟨'x', [], rfl, rfl⟩, by simp; rfl⟩, rfl⟩
  have hname := hblock.space.name hx (apart_space _)
  exact hname.space.keyword .ifWord (apart_space _)

theorem prints_elseIfs (n : Nat) : Prints (elseIfs n) (elseIfTokens n) := by
  induction n with
  | zero => exact prints_emptyIf
  | succ n ih =>
    intro rest ts hrest hapart
    have helse := (ih hrest hapart).space.keyword .elseWord (apart_space _)
    have hall := prints_emptyIf helse.space (apart_space _)
    rw [elseIfs, elseIfTokens, String.toList_append, List.append_assoc, List.append_assoc]
    exact hall

/-! ### Arrays in arrays -/

namespace Parse

variable {l : List Lexeme} {s s' : ParserState}

/-- Every call takes a level, and raises the expression by what a first operand counts. -/
theorem operators_emptyCalls : ∀ (n : Nat) (left : Expr) {l : List Lexeme} {s : ParserState},
    l.map (·.token) = emptyCallTokens n → Consumes s l s' → s'.precedence = .lowest →
    ∃ e, operators n .lowest left s = .ok e s' ∧
      ∀ c, e.height c = left.height c + c.operand * n
  | 0, left, l, s, hl, hs, hnext => by
    obtain rfl := List.map_eq_nil_iff.1 hl
    obtain rfl := hs.eq_of_nil
    refine ⟨left, operators_eq_ok 0 left ?_, fun c => rfl⟩
    rw [hnext]
  | n + 1, left, l, s, hl, hs, hnext => by
    obtain ⟨o, tail, rfl, htail⟩ := exists_of_map_cons hl
    obtain ⟨c, rest, rfl, hrest⟩ := exists_of_map_cons htail
    have hop : s.operator? = some .call := hs.operator?_eq
    have hwrap : wrap (expression n) left .call s =
        .ok (.call left [] ⟨left.span.start, c.stop⟩) s.advance.advance := by
      refine Gives.ok ?_
      exact Gives.after (advance_apply s) ((gives_list_nil hs.tail.head).bind (.of_ok rfl))
    -- the call just made is the first operand of the next one
    obtain ⟨e, he, hheight⟩ := operators_emptyCalls n (.call left [] ⟨left.span.start, c.stop⟩)
      hrest hs.tail.tail hnext
    refine ⟨e, ?_, fun c => ?_⟩
    · rw [operators, get_bind, hop]
      dsimp only
      rw [if_pos (by decide), bind_ok hwrap]
      exact he
    · rw [hheight, Expr.height, Expr.maxHeight, Nat.max_zero, Nat.mul_add_one]
      omega

/-- **An array in an array takes all the levels** of an expression, and is as high as they allow. -/
theorem expression_tower : ∀ (n : Nat) {l : List Lexeme} {s s' : ParserState},
    l.map (·.token) = towerTokens n → Consumes s l s' → s'.precedence = .lowest →
    ∃ e, expression (n + 1) .lowest s = .ok e s' ∧ ∀ c, 1 + e.height c = c.most (n + 1)
  | 0, l, s, s', hl, hs, hnext => by
    obtain ⟨o, tail, rfl, htail⟩ := exists_of_map_cons hl
    obtain ⟨c, rest, rfl, hrest⟩ := exists_of_map_cons htail
    obtain rfl := List.map_eq_nil_iff.1 hrest
    have hprimary : primary (expression 0) (block 0) s = .ok (.array [] ⟨o.start, c.stop⟩) s' := by
      refine Gives.ok (gives_primary hs ?_)
      exact Gives.after (advance_apply s) ((gives_list_nil hs.tail).bind (.of_ok rfl))
    refine ⟨.array [] ⟨o.start, c.stop⟩, ?_, fun c => ?_⟩
    · rw [expression, bind_ok hprimary]
      exact operators_eq_ok 0 _ (by rw [hnext])
    · rw [Expr.height, Expr.maxHeight, Counting.most, Counting.most, Nat.mul_zero]
  | n + 1, l, s, s', hl, hs, hnext => by
    obtain ⟨inside, outside, rfl, hinside, houtside⟩ := exists_of_map_append hl
    obtain ⟨o, tail, rfl, htail⟩ := exists_of_map_cons hinside
    obtain ⟨inner, c, rfl, hinner⟩ := exists_of_map_concat htail
    obtain ⟨s₁, hs₁, hs₂⟩ := hs.split
    obtain ⟨s₀, hs₀, hclose⟩ := hs₁.tail.split
    -- the array inside takes all levels but one, and is the only element
    obtain ⟨e, he, hheight⟩ := expression_tower n hinner hs₀ hclose.precedence_eq
    have hbegins : ¬ s.advance.Comes (.symbol .rightBracket) := by
      obtain ⟨o', rest, rfl⟩ := exists_cons_of_head? hinner (head?_towerTokens n)
      exact hs₀.not_comes (by simp)
    have hlist : Gives False (list (expression (n + 1) .lowest) .rightBracket) s.advance
        ([e], c.stop) s₁ :=
      gives_list_cons hbegins (.of_ok he) (gives_afterCommas_nil _ (hclose.not_comes (by simp)))
        hclose
    have hprimary : primary (expression (n + 1)) (block (n + 1)) s =
        .ok (.array [e] ⟨o.start, c.stop⟩) s₁ := by
      refine Gives.ok (gives_primary hs₁ ?_)
      exact Gives.after (advance_apply s) (hlist.bind (.of_ok rfl))
    -- its levels are free again, so the calls can take as many
    obtain ⟨e', he', hheight'⟩ :=
      operators_emptyCalls (n + 1) (.array [e] ⟨o.start, c.stop⟩) houtside hs₂ hnext
    refine ⟨e', ?_, fun c => ?_⟩
    · rw [expression, bind_ok hprimary]
      exact he'
    · have hinside := hheight c
      rw [hheight', Expr.height, Expr.maxHeight, Expr.maxHeight, Nat.max_zero, Counting.most]
      omega

theorem gives_node_tower {n : Nat} (hl : l.map (·.token) = towerTokens n) (hs : Consumes s l s')
    (hends : Ends s') :
    ∃ x, Gives False (node (expression (n + 1) .lowest) (block (n + 1))) s x s' ∧
      ∀ c, x.height c = c.most (n + 1) := by
  obtain ⟨e, he, hheight⟩ := expression_tower n hl hs hends.precedence_eq
  obtain ⟨o, rest, rfl⟩ := exists_cons_of_head? hl (head?_towerTokens n)
  refine ⟨.expression e, ?_, hheight⟩
  rw [Gives, node_eq_expression hs rfl, map_eq_pure_bind]
  exact Gives.after he (.of_ok rfl)

/-! ### One `if` after another -/

theorem exists_emptyIf {l : List Lexeme} (tokens : List Token)
    (h : l.map (·.token) = emptyIfTokens ++ tokens) :
    ∃ o i b c rest, l = ⟨.keyword .ifWord, o⟩ :: ⟨.name "x", i⟩ :: ⟨.symbol .leftBrace, b⟩ ::
      ⟨.symbol .rightBrace, c⟩ :: rest ∧ rest.map (·.token) = tokens := by
  obtain ⟨o, l₁, rfl, h₁⟩ := exists_of_map_cons h
  obtain ⟨i, l₂, rfl, h₂⟩ := exists_of_map_cons h₁
  obtain ⟨b, l₃, rfl, h₃⟩ := exists_of_map_cons h₂
  obtain ⟨c, rest, rfl, hrest⟩ := exists_of_map_cons h₃
  exact ⟨o, i, b, c, rest, rfl, hrest⟩

/-- The condition and the block of an `if` that does nothing take no more than two levels. -/
theorem gives_emptyIf {levels : Nat} {i b c : Span} {rest : List Lexeme} (hlevels : 2 < levels)
    (hs : Consumes s (⟨.name "x", i⟩ :: ⟨.symbol .leftBrace, b⟩ :: ⟨.symbol .rightBrace, c⟩ :: rest)
      s') :
    ∃ s₁ s₂, Gives False (expression levels .lowest) s (.name ⟨"x", i⟩) s₁ ∧
      Gives False (block levels) s₁ ⟨[], b.start, c.stop⟩ s₂ ∧ Consumes s₂ rest s' := by
  have hname : Derives (.expression .assignment) [⟨.name "x", i⟩] (.name ⟨"x", i⟩) :=
    Derives.name.weaken (by decide)
  have hblock : Derives .block [⟨.symbol .leftBrace, b⟩, ⟨.symbol .rightBrace, c⟩]
      ⟨[], b.start, c.stop⟩ :=
    .block .emptyBody
  obtain ⟨s₁, hs₁, hs₂⟩ := Consumes.split (l := [⟨.name "x", i⟩]) hs
  obtain ⟨s₂, hs₂, hrest⟩ :=
    Consumes.split (l := [⟨.symbol .leftBrace, b⟩, ⟨.symbol .rightBrace, c⟩]) hs₂
  have hcondition : Gives (levels ≤ 1) (expression levels .lowest) s (.name ⟨"x", i⟩) s₁ :=
    Accepted.gives (accepted_of_derives hname) hs₁ hs₂.precedence_eq
  have hconsequence : Gives (levels ≤ 2) (block levels) s₁ ⟨[], b.start, c.stop⟩ s₂ :=
    accepted_of_derives hblock hs₂
  exact ⟨s₁, s₂, hcondition.imp (by omega), hconsequence.imp (by omega), hrest⟩

/-- **An `else if` takes no level**, and raises the tree by one. -/
theorem gives_elseIfs {levels : Nat} (hlevels : 2 < levels) : ∀ (n : Nat) {k : Nat}
    {l : List Lexeme} {s s' : ParserState}, l.map (·.token) = elseIfTokens n → Consumes s l s' →
    ¬ s'.Comes (.keyword .elseWord) → l.length ≤ k →
    ∃ x, Gives False (conditionalWithin (expression levels .lowest) (block levels) k) s x s' ∧
      x.endsWithBlock = true ∧ ∀ c, x.height c = c.elseIf * n + 1
  | 0, k, l, s, s', hl, hs, helse, hk => by
    obtain ⟨o, i, b, c, rest, rfl, hrest⟩ := exists_emptyIf [] hl
    obtain ⟨k, rfl⟩ : ∃ m, k = m + 1 := ⟨k - 1, by rw [List.length_cons] at hk; omega⟩
    obtain rfl := List.map_eq_nil_iff.1 hrest
    obtain ⟨s₁, s₂, hcondition, hconsequence, hend⟩ := gives_emptyIf hlevels hs.tail
    obtain rfl := hend.eq_of_nil
    refine ⟨_, gives_conditionalWithin hs.head hcondition hconsequence helse, rfl, fun c => ?_⟩
    rw [Node.height, Expr.height, Block.height, Node.maxHeight, Nat.max_self, Nat.mul_zero,
      Nat.zero_add]
  | n + 1, k, l, s, s', hl, hs, helse, hk => by
    obtain ⟨o, i, b, c, rest, rfl, hrest⟩ := exists_emptyIf _ hl
    obtain ⟨w, further, rfl, hfurther⟩ := exists_of_map_cons hrest
    simp only [List.length_cons] at hk
    obtain ⟨k, rfl⟩ : ∃ m, k = m + 1 := ⟨k - 1, by omega⟩
    obtain ⟨s₁, s₂, hcondition, hconsequence, hafter⟩ := gives_emptyIf hlevels hs.tail
    have hk' : further.length ≤ k := by omega
    obtain ⟨x, hx, hends, hheight⟩ := gives_elseIfs hlevels n hfurther hafter.tail helse hk'
    have hif : s₂.advance.Comes (.keyword .ifWord) := by
      obtain ⟨o', l', rfl⟩ := exists_cons_of_head? hfurther (head?_elseIfTokens n)
      exact hafter.tail.comes
    refine ⟨_, gives_conditionalWithin_else hs.head hcondition hconsequence hafter.comes
      (gives_alternativeWithin hif hx), rfl, fun c => ?_⟩
    -- the other blocks have nothing in them, so the `else if` is where the tree is highest
    have halternative : c.alternative ⟨[x], x.span⟩ = c.elseIf := by
      rw [Counting.alternative, if_pos (isElseIf_of_endsWithBlock hends)]
    rw [Node.height, halternative, Expr.height, Block.height, Block.height, Node.maxHeight,
      Node.maxHeight, Node.maxHeight, hheight, Nat.mul_add_one]
    omega

theorem gives_node_elseIfs {levels n : Nat} (hlevels : 2 < levels)
    (hl : l.map (·.token) = elseIfTokens n) (hs : Consumes s l s') (hends : Ends s') :
    ∃ x, Gives False (node (expression levels .lowest) (block levels)) s x s' ∧
      ∀ c, x.height c = c.elseIf * n + 1 := by
  have hlength : l.length ≤ s.lexemes.length := by
    rw [hs.lexemes_eq, List.length_append]
    exact Nat.le_add_right _ _
  obtain ⟨x, hx, -, hheight⟩ := gives_elseIfs hlevels n hl hs hends.not_comes hlength
  obtain ⟨o, rest, rfl⟩ := exists_cons_of_head? hl (head?_elseIfTokens n)
  refine ⟨x, ?_, hheight⟩
  rw [Gives, node_eq_conditional hs, conditional, get_bind]
  exact hx

end Parse

/-! ### Programs -/

namespace Program

/-- A text of one node is parsed if the node is read from its lexemes. -/
theorem exists_parse_of_node {text : String} {token : Token} {tokens : List Token}
    {P : Node → Prop} (hspells : Spells text.toList tokens) (htoken : tokens.head? = some token)
    (hbegins : beginsNode token = true)
    (hnode : ∀ {l s s'}, l.map (·.token) = tokens → Consumes s l s' → Parse.Ends s' →
      ∃ x, Parse.Gives False
        (Parse.node (Parse.expression maxNesting .lowest) (Parse.block maxNesting)) s x s' ∧ P x) :
    ∃ x span, parse text = .ok ⟨[x], span⟩ ∧ P x := by
  obtain ⟨htokens, offset, hending⟩ := hspells 0 0
  change (LexemeStream.ofText text).ending = _ at hending
  change (LexemeStream.ofText text).lexemes.map _ = _ at htokens
  have hs := Parse.consumes_ofStream hending
  have hend := Parse.comes_atEnd (.ofText text) offset
  obtain ⟨x, hx, hP⟩ := hnode htokens hs (Parse.ends_of_comes hend rfl)
  obtain ⟨o, rest, hlexemes⟩ := exists_cons_of_head? htokens htoken
  have hnodes : Parse.Gives False
      (Parse.programWithin maxNesting ((LexemeStream.ofText text).lexemes.length + 1))
      (.ofStream (.ofText text)) [x] (Parse.atEnd (.ofText text) offset) := by
    -- the program is a body of one node, which the end of the text closes
    have hloop : Parse.BodyLoop False .eof _ (Parse.programWithin maxNesting) id
        (Parse.atEnd (.ofText text) offset) (Parse.atEnd (.ofText text) offset) :=
      Parse.bodyLoop_programWithin maxNesting
    rw [hlexemes] at hs ⊢
    exact hloop.next hs hbegins hx (Parse.terminator_of_closing hend (by simp)) (hloop.done hend)
  let start := ((LexemeStream.ofText text).lexemes.head?.map (·.span.start)).getD offset
  let span : Span := ⟨start, max (stopAfter 0 (LexemeStream.ofText text).lexemes) start⟩
  have hprogram := (Parse.gives_program_of_nodes hending (p := ⟨[x], span⟩) rfl hnodes).ok
  refine ⟨x, span, ?_, hP⟩
  rw [parse, ofStream, hprogram]

/-- The array in an array that takes all levels of a program is as high as they allow. -/
theorem exists_parse_tower : ∃ program, parse (tower (maxNesting - 1)) = .ok program ∧
    ∀ c, program.height c = c.most maxNesting := by
  obtain ⟨x, span, hparse, hheight⟩ := exists_parse_of_node (prints_tower (maxNesting - 1)).spells
    (head?_towerTokens _) rfl Parse.gives_node_tower
  refine ⟨_, hparse, fun c => ?_⟩
  rw [height, Node.maxHeight, Node.maxHeight, hheight, Nat.max_zero]
  rfl

/-- An `if` and any number of `else if`s are accepted. -/
theorem exists_parse_elseIfs (n : Nat) : ∃ program, parse (elseIfs n) = .ok program ∧
    ∀ c, program.height c = c.elseIf * n + 1 := by
  have hlevels : 2 < maxNesting := by decide
  obtain ⟨x, span, hparse, hheight⟩ := exists_parse_of_node (prints_elseIfs n).spells
    (head?_elseIfTokens n) rfl (Parse.gives_node_elseIfs hlevels)
  refine ⟨_, hparse, fun c => ?_⟩
  rw [height, Node.maxHeight, Node.maxHeight, hheight, Nat.max_zero]

/-- The heights of the programs that texts are parsed as. -/
def heights (c : Counting) : Set Nat :=
  {h | ∃ text program, parse text = .ok program ∧ program.height c = h}

/-- **What the bound on nesting bounds.** On a path of a program that has been parsed there are at
most as many expressions and blocks as there are levels, if the first operands of operators and the
blocks that stand for an `else if` are left out. With the first operands there are at most half a
million, and with the `else if`s as many as one likes. -/
theorem isGreatest_heights :
    IsGreatest (heights ⟨0, 0⟩) maxNesting ∧
      IsGreatest (heights ⟨1, 0⟩) (maxNesting * (maxNesting + 1) / 2) ∧
      ¬ BddAbove (heights .all) := by
  obtain ⟨program, hparse, hheight⟩ := exists_parse_tower
  refine ⟨⟨⟨_, program, hparse, ?_⟩, ?_⟩, ⟨⟨_, program, hparse, ?_⟩, ?_⟩, ?_⟩
  · rw [hheight, Counting.most_of_operand_eq_zero rfl]
  · rintro _ ⟨text, program, h, rfl⟩
    exact (height_le h).1
  · have htwice := Counting.most_of_operand_eq_one (c := ⟨1, 0⟩) rfl maxNesting
    rw [hheight]
    omega
  · rintro _ ⟨text, program, h, rfl⟩
    exact (height_le h).2
  · rintro ⟨bound, hbound⟩
    obtain ⟨program, hparse, hheight⟩ := exists_parse_elseIfs bound
    have hall : program.height .all = bound + 1 := by rw [hheight, Counting.all, Nat.one_mul]
    have hle := hbound ⟨_, program, hparse, hall⟩
    omega

/-- The bound on nesting bounds a way of counting only if first operands and `else if`s are left
out. -/
theorem forall_height_le_iff (c : Counting) :
    (∀ text program, parse text = .ok program → program.height c ≤ maxNesting) ↔
      c.operand = 0 ∧ c.elseIf = 0 := by
  constructor
  · intro h
    obtain ⟨tall, htall, hmost⟩ := exists_parse_tower
    obtain ⟨long, hlong, hlength⟩ := exists_parse_elseIfs maxNesting
    have hoperand := h _ tall htall
    have helseIf := h _ long hlong
    have hle := c.le_most (maxNesting - 1)
    rw [hmost, show maxNesting = maxNesting - 1 + 1 from rfl, Counting.most] at hoperand
    rw [hlength] at helseIf
    simp only [maxNesting] at *
    omega
  · obtain ⟨operand, elseIf⟩ := c
    rintro ⟨rfl, rfl⟩ text program h
    exact (height_le h).1

/-- A thousand `else if`s make a path longer than there are levels. -/
theorem not_path_length_le :
    ¬ ∀ text program, parse text = .ok program →
      ∀ path, program.IsPath path → path.length ≤ maxNesting := by
  intro h
  obtain ⟨program, hparse, hheight⟩ := exists_parse_elseIfs maxNesting
  have hle : program.height .all ≤ maxNesting := by
    refine height_le_iff.2 fun path hpath => ?_
    rw [Counting.total_all]
    exact h _ program hparse path hpath
  rw [hheight, Counting.all, Nat.one_mul] at hle
  exact Nat.not_succ_le_self _ hle

end Program

end Script
