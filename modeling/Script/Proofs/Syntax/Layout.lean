import Script.Proofs.Lexeme.Order
import Script.Proofs.Parser.Language

/-!
# Where the parts of a program stand

Every node, expression, block and name of a program has a span, from the first lexeme that is its
own to the last. Parentheses are nobody's own, so they stand in the gaps between such spans. The
spans follow the tree: a part holds the parts right inside it, one after the other, in the order of
the text.

* `Part.children`: what stands right inside a part, in the order of the text;
* `LaidOut`: parts one after the other between two offsets, with all that stands inside them;
* `Grammar.Derives.laidOut`: what some lexemes derive is laid out among them;
* `Program.spans_of_parse`: the spans of a program.
-/

namespace Script

open Grammar
open Text (byteLength)

/-! ### Parts -/

/-- A part of a program that has a span of its own: a node, an expression, a block, or the name
of a `let` or of a parameter. -/
inductive Part where
  | node (n : Node)
  | expression (e : Expr)
  | block (b : Block)
  | ident (i : Ident)

namespace Part

/-- Where a part was read. -/
def span : Part → Span
  | node n => n.span
  | expression e => e.span
  | block b => b.span
  | ident i => i.span

/-- What stands right inside a part, in the order of the text. -/
def children : Part → List Part
  | node (.binding i value _) => [ident i, expression value]
  | node (.returning value _) => value.toList.map expression
  | node (.conditional condition consequence alternative _) =>
    expression condition :: block consequence :: alternative.toList.map block
  | node (.expression value) => [expression value]
  | expression (.array elements _) => elements.map expression
  | expression (.map pairs _) => pairs.flatMap fun kv => [expression kv.1, expression kv.2]
  | expression (.unary _ operand _) => [expression operand]
  | expression (.binary _ left right _) => [expression left, expression right]
  | expression (.assign target value _) => [expression target, expression value]
  | expression (.index target key _) => [expression target, expression key]
  | expression (.function parameters body _) => parameters.map ident ++ [block body]
  | expression (.call callee arguments _) => expression callee :: arguments.map expression
  | expression _ => []
  | block b => b.nodes.map node
  | ident _ => []

end Part

/-- The parts of a program: its nodes, and whatever stands inside one of its parts. -/
inductive Program.HasPart (program : Program) : Part → Prop where
  | node {n : Node} (h : n ∈ program.nodes) : HasPart program (.node n)
  | child {part child : Part} (h : HasPart program part) (hchild : child ∈ part.children) :
      HasPart program child

/-! ### Layout -/

/-- A span reaches from the start of a lexeme to the end of one, over some bytes. -/
structure Span.Among (lexemes : List Lexeme) (span : Span) : Prop where
  start : ∃ x ∈ lexemes, x.span.start = span.start
  stop : ∃ x ∈ lexemes, x.span.stop = span.stop
  start_lt_stop : span.start < span.stop

theorem Span.Among.toNat_lt {lexemes : List Lexeme} {span : Span} (h : span.Among lexemes) :
    span.start.toNat < span.stop.toNat :=
  UInt32.lt_iff_toNat_lt.1 h.start_lt_stop

/-- **Parts stand one after the other** between two offsets, each from a lexeme to a lexeme, and the
parts right inside a part do so between its two ends. -/
inductive LaidOut (lexemes : List Lexeme) : Nat → List Part → Nat → Prop where
  | nil {a b : Nat} (h : a ≤ b) : LaidOut lexemes a [] b
  | cons {a b : Nat} {part : Part} {parts : List Part} (hstart : a ≤ part.span.start.toNat)
      (hspan : part.span.Among lexemes)
      (hinside : LaidOut lexemes part.span.start.toNat part.children part.span.stop.toNat)
      (hrest : LaidOut lexemes part.span.stop.toNat parts b) : LaidOut lexemes a (part :: parts) b

namespace LaidOut

variable {lexemes : List Lexeme} {a b c : Nat} {part part' : Part} {parts parts' : List Part}

theorem le (h : LaidOut lexemes a parts b) : a ≤ b := by
  induction h with
  | nil h => exact h
  | cons hstart hspan _ _ _ ih =>
    have hlt := hspan.toNat_lt
    omega

/-- Between offsets further apart. -/
theorem widen {a' b' : Nat} (h : LaidOut lexemes a parts b) (ha : a' ≤ a) (hb : b ≤ b') :
    LaidOut lexemes a' parts b' := by
  induction h generalizing a' with
  | nil h => exact .nil (by omega)
  | cons hstart hspan hinside _ _ ih =>
    exact .cons (Nat.le_trans ha hstart) hspan hinside (ih (Nat.le_refl _) hb)

theorem append (h : LaidOut lexemes a parts b) (h' : LaidOut lexemes b parts' c) :
    LaidOut lexemes a (parts ++ parts') c := by
  induction h with
  | nil h => exact h'.widen h (Nat.le_refl c)
  | cons hstart hspan hinside _ _ ih => exact .cons hstart hspan hinside (ih h')

/-- One part alone. -/
theorem single (hstart : a ≤ part.span.start.toNat) (hspan : part.span.Among lexemes)
    (hinside : LaidOut lexemes part.span.start.toNat part.children part.span.stop.toNat)
    (hstop : part.span.stop.toNat ≤ b) : LaidOut lexemes a [part] b :=
  .cons hstart hspan hinside (.nil hstop)

/-- From the start of the first part on. -/
theorem fromStart (h : LaidOut lexemes a (part :: parts) b) :
    a ≤ part.span.start.toNat ∧ part.span.Among lexemes ∧
      LaidOut lexemes part.span.start.toNat (part :: parts) b := by
  cases h with
  | cons hstart hspan hinside hrest =>
    exact ⟨hstart, hspan, .cons (Nat.le_refl _) hspan hinside hrest⟩

/-- Up to the end of the only part. -/
theorem toStop (h : LaidOut lexemes a [part] b) :
    part.span.stop.toNat ≤ b ∧ part.span.Among lexemes ∧
      LaidOut lexemes a [part] part.span.stop.toNat := by
  cases h with
  | cons hstart hspan hinside hrest =>
    exact ⟨hrest.le, hspan, .single hstart hspan hinside (Nat.le_refl _)⟩

/-- A part around one other part with the same span. -/
theorem around (h : LaidOut lexemes a [part] b) (hspan : part'.span = part.span)
    (hchildren : part'.children = [part]) : LaidOut lexemes a [part'] b := by
  cases h with
  | cons hstart hamong hinside hrest =>
    have hpart : LaidOut lexemes part.span.start.toNat [part] part.span.stop.toNat :=
      .single (Nat.le_refl _) hamong hinside (Nat.le_refl _)
    refine .single (hspan ▸ hstart) (hspan ▸ hamong) ?_ (hspan ▸ hrest.le)
    rw [hspan, hchildren]
    exact hpart

/-- One of the parts: between the two offsets, with what stands inside it. -/
theorem of_mem (h : LaidOut lexemes a parts b) (hpart : part ∈ parts) :
    a ≤ part.span.start.toNat ∧ part.span.stop.toNat ≤ b ∧ part.span.Among lexemes ∧
      LaidOut lexemes part.span.start.toNat part.children part.span.stop.toNat := by
  induction h with
  | nil => cases hpart
  | cons hstart hspan hinside hrest _ ih =>
    rcases List.mem_cons.1 hpart with rfl | hpart
    · exact ⟨hstart, hrest.le, hspan, hinside⟩
    · have hlt := hspan.toNat_lt
      obtain ⟨hle, hstop, hrest⟩ := ih hpart
      exact ⟨by omega, hstop, hrest⟩

/-- No part begins before another in front of it has ended. -/
theorem pairwise (h : LaidOut lexemes a parts b) :
    parts.Pairwise fun part next => part.span.stop.toNat ≤ next.span.start.toNat := by
  induction h with
  | nil => exact .nil
  | cons _ _ _ hrest _ ih => exact .cons (fun part hpart => (hrest.of_mem hpart).1) ih

end LaidOut

/-! ### Phrases -/

namespace Grammar

/-- The parts of what stands between commas. -/
def Item.parts : (kind : Item) → List kind.Tree → List Part
  | .expression, es => es.map .expression
  | .pair, pairs => pairs.flatMap fun kv => [.expression kv.1, .expression kv.2]
  | .parameter, idents => idents.map .ident

theorem Item.parts_nil (kind : Item) : kind.parts [] = [] := by
  cases kind <;> rfl

theorem Item.parts_cons (kind : Item) (x : kind.Tree) (xs : List kind.Tree) :
    kind.parts (x :: xs) = kind.parts [x] ++ kind.parts xs := by
  cases kind <;> rfl

/-- The parts that a phrase puts into the part around it. -/
def Phrase.parts : (phrase : Phrase) → phrase.Tree → List Part
  | .expression _, e => [.expression e]
  | .item kind, x => kind.parts [x]
  | .items kind, xs => kind.parts xs
  | .furtherItems kind, xs => kind.parts xs
  | .block, b => [.block b]
  | .body, nodes => nodes.map .node
  | .node, n => [.node n]
  | .conditional, n => [.node n]
  | .alternative, b => [.block b]

end Grammar

/-! ### Lexemes and the parts among them

A part reaches from its first lexeme or the first part inside it to its last lexeme or the last part
inside it. -/

/-- A lexeme in front of others that stand in order. -/
theorem InOrder.of_cons {a b : Nat} {x : Lexeme} {l : List Lexeme} (h : InOrder a (x :: l) b) :
    a ≤ x.span.start.toNat ∧ x.span.start.toNat < x.span.stop.toNat ∧
      InOrder x.span.stop.toNat l b := by
  cases h with
  | cons hstart hbytes hrest => exact ⟨hstart, hbytes, hrest⟩

/-- A lexeme behind others that stand in order. -/
theorem InOrder.of_concat {a b : Nat} {x : Lexeme} {l : List Lexeme} (h : InOrder a (l ++ [x]) b) :
    ∃ m, InOrder a l m ∧ m ≤ x.span.start.toNat ∧
      x.span.start.toNat < x.span.stop.toNat ∧ x.span.stop.toNat ≤ b := by
  obtain ⟨m, hl, hx⟩ := h.split
  obtain ⟨hstart, hbytes, hstop⟩ := hx.of_cons
  exact ⟨m, hl, hstart, hbytes, hstop.le⟩

/-- Up to where the last of the lexemes ends. -/
theorem InOrder.to_stopAfter {b : Nat} {stop : UInt32} {l : List Lexeme}
    (h : InOrder stop.toNat l b) : InOrder stop.toNat l (stopAfter stop l).toNat := by
  induction l generalizing stop with
  | nil => exact .nil (Nat.le_refl _)
  | cons x l ih =>
    cases h with
    | cons hstart hbytes hrest => exact .cons hstart hbytes (ih hrest)

namespace LaidOut

variable {lexemes : List Lexeme} {a b m : Nat} {x y : Lexeme} {part first last : Part}
  {parts : List Part}

/-- A part that is one lexeme. -/
theorem lexeme (hx : x ∈ lexemes) (h : InOrder a [x] b) (hspan : part.span = x.span)
    (hchildren : part.children = []) : LaidOut lexemes a [part] b := by
  obtain ⟨hstart, hbytes, hstop⟩ := h.of_cons
  have hamong : part.span.Among lexemes := by
    rw [hspan]
    exact ⟨⟨x, hx, rfl⟩, ⟨x, hx, rfl⟩, UInt32.lt_iff_toNat_lt.2 hbytes⟩
  refine .single (by rw [hspan]; exact hstart) hamong ?_ (by rw [hspan]; exact hstop.le)
  rw [hchildren]
  exact .nil (Nat.le_of_lt hamong.toNat_lt)

/-- A part from a lexeme to a lexeme. -/
theorem between (hx : x ∈ lexemes) (hy : y ∈ lexemes) (hstart : a ≤ x.span.start.toNat)
    (hbytes : x.span.start.toNat < x.span.stop.toNat)
    (h : LaidOut lexemes x.span.stop.toNat parts m)
    (hstop : m ≤ y.span.start.toNat ∧ y.span.start.toNat < y.span.stop.toNat ∧
      y.span.stop.toNat ≤ b)
    (hspan : part.span = ⟨x.span.start, y.span.stop⟩) (hchildren : part.children = parts) :
    LaidOut lexemes a [part] b := by
  obtain ⟨hm, hbytes', hb⟩ := hstop
  have hle := h.le
  refine .single ?_ ?_ ?_ ?_ <;> rw [hspan]
  · exact hstart
  · have hlt : x.span.start.toNat < y.span.stop.toNat := by omega
    exact ⟨⟨x, hx, rfl⟩, ⟨y, hy, rfl⟩, UInt32.lt_iff_toNat_lt.2 hlt⟩
  · rw [hchildren]
    exact h.widen (Nat.le_of_lt hbytes) (by dsimp only; omega)
  · exact hb

/-- A part from a lexeme to the end of the last part inside it. -/
theorem fromLexeme (hx : x ∈ lexemes) (hstart : a ≤ x.span.start.toNat)
    (hbytes : x.span.start.toNat < x.span.stop.toNat)
    (h : LaidOut lexemes x.span.stop.toNat parts m)
    (hlast : LaidOut lexemes m [last] b) (hspan : part.span = ⟨x.span.start, last.span.stop⟩)
    (hchildren : part.children = parts ++ [last]) : LaidOut lexemes a [part] b := by
  obtain ⟨hstop, hamong, hlast⟩ := hlast.toStop
  have hinside := h.append hlast
  have hle := hinside.le
  refine .single ?_ ?_ ?_ ?_ <;> rw [hspan]
  · exact hstart
  · have hlt : x.span.start.toNat < last.span.stop.toNat := by omega
    exact ⟨⟨x, hx, rfl⟩, hamong.stop, UInt32.lt_iff_toNat_lt.2 hlt⟩
  · rw [hchildren]
    exact hinside.widen (Nat.le_of_lt hbytes) (Nat.le_refl _)
  · exact hstop

/-- A part from the start of the first part inside it to a lexeme. -/
theorem toLexeme (hy : y ∈ lexemes) (hfirst : LaidOut lexemes a [first] m) {m' : Nat}
    (h : LaidOut lexemes m parts m')
    (hstop : m' ≤ y.span.start.toNat ∧ y.span.start.toNat < y.span.stop.toNat ∧
      y.span.stop.toNat ≤ b)
    (hspan : part.span = ⟨first.span.start, y.span.stop⟩)
    (hchildren : part.children = first :: parts) : LaidOut lexemes a [part] b := by
  obtain ⟨hm, hbytes, hb⟩ := hstop
  obtain ⟨hstart, hamong, hfirst⟩ := hfirst.fromStart
  have hlt := hamong.toNat_lt
  have hle := hfirst.toStop.1
  have hle' := h.le
  refine .single ?_ ?_ ?_ ?_ <;> rw [hspan]
  · exact hstart
  · have hlt : first.span.start.toNat < y.span.stop.toNat := by omega
    exact ⟨hamong.start, ⟨y, hy, rfl⟩, UInt32.lt_iff_toNat_lt.2 hlt⟩
  · rw [hchildren]
    exact (hfirst.append h).widen (Nat.le_refl _) (by dsimp only; omega)
  · exact hb

/-- A part from the start of one part inside it to the end of another, which covers both. -/
theorem hull (hfirst : LaidOut lexemes a [first] m) (hlast : LaidOut lexemes m [last] b)
    (hspan : part.span = first.span.hull last.span) (hchildren : part.children = [first, last]) :
    LaidOut lexemes a [part] b := by
  obtain ⟨hstart, hamong, hfirst⟩ := hfirst.fromStart
  obtain ⟨hstop, hamong', hlast⟩ := hlast.toStop
  have hlt := hamong.toNat_lt
  have hlt' := hamong'.toNat_lt
  have hle := hfirst.toStop.1
  have hle' := hlast.fromStart.1
  -- the first part stands in front, so the hull starts where it does
  have hends : part.span = ⟨first.span.start, last.span.stop⟩ := by
    rw [hspan, Span.hull, Offset.min_eq_left (UInt32.le_iff_toNat_le.2 (by omega)),
      Offset.max_eq_right (UInt32.le_iff_toNat_le.2 (by omega))]
  refine .single ?_ ?_ ?_ ?_ <;> rw [hends]
  · exact hstart
  · have hlt : first.span.start.toNat < last.span.stop.toNat := by omega
    exact ⟨hamong.start, hamong'.stop, UInt32.lt_iff_toNat_lt.2 hlt⟩
  · rw [hchildren]
    exact hfirst.append hlast
  · exact hstop

end LaidOut

/-- **What some lexemes derive is laid out among them.** -/
theorem Grammar.Derives.laidOut {lexemes : List Lexeme} {phrase : Phrase} {l : List Lexeme}
    {t : phrase.Tree} (h : Derives phrase l t) {a b : Nat} (hl : l ⊆ lexemes) (ho : InOrder a l b) :
    LaidOut lexemes a (phrase.parts t) b := by
  induction h generalizing a b with
  | name | integer | string | trueLiteral | falseLiteral | parameterItem =>
    exact .lexeme (hl List.mem_cons_self) ho rfl rfl
  -- Parentheses leave no trace in the tree, so what they hold only gets more room.
  | group _ ih =>
    simp only [List.cons_subset, List.append_subset] at hl
    obtain ⟨hstart, hbytes, ho⟩ := ho.of_cons
    obtain ⟨m, ho, hm, hbytes', hstop⟩ := ho.of_concat
    exact (ih hl.2.1 ho).widen (by omega) (by omega)
  | array _ ih =>
    simp only [List.cons_subset, List.append_subset] at hl
    obtain ⟨hstart, hbytes, ho⟩ := ho.of_cons
    obtain ⟨m, ho, hstop⟩ := ho.of_concat
    exact .between hl.1 hl.2.2.1 hstart hbytes (ih hl.2.1 ho) hstop rfl rfl
  | map _ ih =>
    simp only [List.cons_subset, List.append_subset] at hl
    obtain ⟨hstart, hbytes, ho⟩ := ho.of_cons
    obtain ⟨m, ho, hstop⟩ := ho.of_concat
    exact .between hl.1 hl.2.2.1 hstart hbytes (ih hl.2.1 ho) hstop rfl rfl
  | function _ _ ih ih' =>
    simp only [List.cons_subset, List.append_subset] at hl
    obtain ⟨hstart, hbytes, ho⟩ := ho.of_cons
    obtain ⟨hopen, hopen', ho⟩ := ho.of_cons
    obtain ⟨m, ho, ho'⟩ := ho.split
    obtain ⟨hclose, hclose', ho'⟩ := ho'.of_cons
    exact .fromLexeme hl.1 hstart hbytes ((ih hl.2.2.1 ho).widen (by omega) (by omega))
      (ih' hl.2.2.2.2 ho') rfl rfl
  | call _ _ ih ih' =>
    simp only [List.cons_subset, List.append_subset] at hl
    obtain ⟨m, ho, ho'⟩ := ho.split
    obtain ⟨hopen, hopen', ho'⟩ := ho'.of_cons
    obtain ⟨m', ho', hstop⟩ := ho'.of_concat
    exact .toLexeme hl.2.2.2.1 (ih hl.1 ho) ((ih' hl.2.2.1 ho').widen (by omega) (Nat.le_refl _))
      hstop rfl rfl
  | index _ _ ih ih' =>
    simp only [List.cons_subset, List.append_subset] at hl
    obtain ⟨m, ho, ho'⟩ := ho.split
    obtain ⟨hopen, hopen', ho'⟩ := ho'.of_cons
    obtain ⟨m', ho', hstop⟩ := ho'.of_concat
    exact .toLexeme hl.2.2.2.1 (ih hl.1 ho) ((ih' hl.2.2.1 ho').widen (by omega) (Nat.le_refl _))
      hstop rfl rfl
  -- From here on the node begins or ends with a part of it and not always with a lexeme.
  | unary _ ih =>
    simp only [List.cons_subset] at hl
    obtain ⟨hstart, hbytes, ho⟩ := ho.of_cons
    exact .fromLexeme hl.1 hstart hbytes (.nil (Nat.le_refl _)) (ih hl.2 ho) rfl rfl
  | binary _ _ ih ih' =>
    simp only [List.cons_subset, List.append_subset] at hl
    obtain ⟨m, ho, ho'⟩ := ho.split
    obtain ⟨hstart, hbytes, ho'⟩ := ho'.of_cons
    exact .hull (ih hl.1 ho) ((ih' hl.2.2 ho').widen (by omega) (Nat.le_refl _)) rfl rfl
  | assign _ _ ih ih' =>
    simp only [List.cons_subset, List.append_subset] at hl
    obtain ⟨m, ho, ho'⟩ := ho.split
    obtain ⟨hstart, hbytes, ho'⟩ := ho'.of_cons
    exact .hull (ih hl.1 ho) ((ih' hl.2.2 ho').widen (by omega) (Nat.le_refl _)) rfl rfl
  | lift _ ih => exact ih hl ho
  | expressionItem _ ih => exact ih hl ho
  | pairItem _ _ ih ih' =>
    simp only [List.cons_subset, List.append_subset] at hl
    obtain ⟨m, ho, ho'⟩ := ho.split
    obtain ⟨hstart, hbytes, ho'⟩ := ho'.of_cons
    exact (ih hl.1 ho).append ((ih' hl.2.2 ho').widen (by omega) (Nat.le_refl _))
  | @noItems kind | @noFurtherItems kind =>
    rw [Phrase.parts, kind.parts_nil]
    exact .nil ho.le
  | @items kind _ _ x xs _ _ ih ih' =>
    simp only [List.append_subset] at hl
    obtain ⟨m, ho, ho'⟩ := ho.split
    rw [Phrase.parts, kind.parts_cons x xs]
    exact (ih hl.1 ho).append (ih' hl.2 ho')
  | @furtherItems kind _ _ x xs _ _ _ ih ih' =>
    simp only [List.cons_subset, List.append_subset] at hl
    obtain ⟨hstart, hbytes, ho⟩ := ho.of_cons
    obtain ⟨m, ho, ho'⟩ := ho.split
    rw [Phrase.parts, kind.parts_cons x xs]
    exact ((ih hl.2.1 ho).append (ih' hl.2.2 ho')).widen (by omega) (Nat.le_refl _)
  -- The name is a part of its own, laid out on its one lexeme in front of the value.
  | @binding text _ _ o i sign _ ih =>
    simp only [List.cons_subset] at hl
    obtain ⟨hstart, hbytes, ho⟩ := ho.of_cons
    obtain ⟨hname, hname', ho⟩ := ho.of_cons
    obtain ⟨hassign, hassign', ho⟩ := ho.of_cons
    have hident : LaidOut lexemes o.stop.toNat [.ident ⟨text, i⟩] i.stop.toNat :=
      .lexeme hl.2.1 (.cons hname hname' (.nil (Nat.le_refl _))) rfl rfl
    have hle : i.stop.toNat ≤ sign.stop.toNat := Nat.le_trans hassign (Nat.le_of_lt hassign')
    exact .fromLexeme hl.1 hstart hbytes hident ((ih hl.2.2.2 ho).widen hle (Nat.le_refl _)) rfl rfl
  | returningNothing => exact .lexeme (hl List.mem_cons_self) ho rfl rfl
  | returning _ ih =>
    simp only [List.cons_subset] at hl
    obtain ⟨hstart, hbytes, ho⟩ := ho.of_cons
    exact .fromLexeme hl.1 hstart hbytes (.nil (Nat.le_refl _)) (ih hl.2 ho) rfl rfl
  -- The node has the span of the expression, which is its only part.
  | expressionNode _ ih => exact (ih hl ho).around rfl rfl
  | conditionalNode _ ih => exact ih hl ho
  | conditional _ _ ih ih' =>
    simp only [List.cons_subset, List.append_subset] at hl
    obtain ⟨hstart, hbytes, ho⟩ := ho.of_cons
    obtain ⟨m, ho, ho'⟩ := ho.split
    exact .fromLexeme hl.1 hstart hbytes (ih hl.2.1 ho) (ih' hl.2.2 ho') rfl rfl
  | conditionalElse _ _ _ ih ih' ih'' =>
    simp only [List.cons_subset, List.append_subset] at hl
    obtain ⟨hstart, hbytes, ho⟩ := ho.of_cons
    obtain ⟨m, ho, ho'⟩ := ho.split
    obtain ⟨m', ho', ho''⟩ := ho'.split
    obtain ⟨helse, helse', ho''⟩ := ho''.of_cons
    exact .fromLexeme hl.1 hstart hbytes ((ih hl.2.1 ho).append (ih' hl.2.2.1 ho'))
      ((ih'' hl.2.2.2.2 ho'').widen (by omega) (Nat.le_refl _)) rfl rfl
  | alternativeBlock _ ih => exact ih hl ho
  | alternativeConditional _ ih => exact (ih hl ho).around rfl rfl
  -- A body has no span: its nodes are laid out one after another.
  | emptyBody => exact .nil ho.le
  | semicolon _ ih =>
    simp only [List.cons_subset] at hl
    obtain ⟨hstart, hbytes, ho⟩ := ho.of_cons
    exact (ih hl.2 ho).widen (by omega) (Nat.le_refl _)
  | lastNode _ ih => exact ih hl ho
  | terminatedNode _ _ ih ih' =>
    simp only [List.cons_subset, List.append_subset] at hl
    obtain ⟨m, ho, ho'⟩ := ho.split
    obtain ⟨hstart, hbytes, ho'⟩ := ho'.of_cons
    exact (ih hl.1 ho).append ((ih' hl.2.2 ho').widen (by omega) (Nat.le_refl _))
  | conditionalInBody _ _ ih ih' =>
    simp only [List.append_subset] at hl
    obtain ⟨m, ho, ho'⟩ := ho.split
    exact (ih hl.1 ho).append (ih' hl.2 ho')
  | block _ ih =>
    simp only [List.cons_subset, List.append_subset] at hl
    obtain ⟨hstart, hbytes, ho⟩ := ho.of_cons
    obtain ⟨m, ho, hstop⟩ := ho.of_concat
    exact .between hl.1 hl.2.2.1 hstart hbytes (ih hl.2.1 ho) hstop rfl rfl

/-! ### Programs -/

/-- **A program is laid out within its span**, among its lexemes. -/
theorem Grammar.IsProgram.laidOut {lexemes : List Lexeme} {offset : UInt32} {program : Program}
    (h : IsProgram lexemes offset program) (ho : InOrder 0 lexemes offset.toNat) :
    LaidOut lexemes program.span.start.toNat (program.nodes.map .node) program.span.stop.toNat ∧
      program.span.stop ≤ offset := by
  obtain ⟨hbody, hspan⟩ := h
  cases lexemes with
  | nil =>
    have hends : program.span = .point offset :=
      hspan.trans (congrArg (Span.mk offset) (Offset.max_eq_right UInt32.zero_le))
    rw [eq_nil_of_derives_nil hbody, hends]
    exact ⟨.nil (Nat.le_refl _), UInt32.le_refl _⟩
  | cons x l =>
    obtain ⟨hstart, hbytes, hrest⟩ := ho.of_cons
    have hlast : x.span.start ≤ stopAfter 0 (x :: l) :=
      UInt32.le_iff_toNat_le.2 (Nat.le_trans (Nat.le_of_lt hbytes) hrest.to_stopAfter.le)
    have hends : program.span = ⟨x.span.start, stopAfter 0 (x :: l)⟩ :=
      hspan.trans (congrArg (Span.mk x.span.start) (Offset.max_eq_left hlast))
    rw [hends]
    -- the same lexemes, from the start of the first to the end of the last
    have hwithin : InOrder x.span.start.toNat (x :: l) (stopAfter 0 (x :: l)).toNat :=
      .cons (Nat.le_refl _) hbytes hrest.to_stopAfter
    exact ⟨hbody.laidOut (List.Subset.refl _) hwithin,
      UInt32.le_iff_toNat_le.2 hrest.stopAfter_le⟩

/-- **Every part of a laid out program is laid out**, between two offsets of the program. -/
theorem Program.HasPart.laidOut {lexemes : List Lexeme} {program : Program} {part : Part}
    (hpart : program.HasPart part) {a b : Nat}
    (h : LaidOut lexemes a (program.nodes.map .node) b) :
    part.span.Among lexemes ∧ part.span.stop.toNat ≤ b ∧
      LaidOut lexemes part.span.start.toNat part.children part.span.stop.toNat := by
  induction hpart with
  | node hn =>
    obtain ⟨-, hstop, hamong, hinside⟩ := h.of_mem (List.mem_map_of_mem hn)
    exact ⟨hamong, hstop, hinside⟩
  | child _ hchild ih =>
    obtain ⟨-, hstop, hinside⟩ := ih
    obtain ⟨-, hstop', hamong, hinside⟩ := hinside.of_mem hchild
    exact ⟨hamong, Nat.le_trans hstop' hstop, hinside⟩

/-- A span holds parts: they are within it, and none begins before one in front of it has
ended. -/
structure Span.Holds (span : Span) (parts : List Part) : Prop where
  within : ∀ part ∈ parts, span.start ≤ part.span.start ∧ part.span.stop ≤ span.stop
  inOrder : parts.Pairwise fun part next => part.span.stop ≤ next.span.start

theorem LaidOut.holds {lexemes : List Lexeme} {span : Span} {parts : List Part}
    (h : LaidOut lexemes span.start.toNat parts span.stop.toNat) : span.Holds parts where
  within _ hpart := ⟨UInt32.le_iff_toNat_le.2 (h.of_mem hpart).1,
    UInt32.le_iff_toNat_le.2 (h.of_mem hpart).2.1⟩
  inOrder := h.pairwise.imp UInt32.le_iff_toNat_le.2

namespace Program

variable {text : String} {program : Program}

/-- A parsed program is laid out within its span, among the lexemes of its text. -/
theorem laidOut_of_parse (hlt : byteLength text.toList < 2 ^ 32) (h : parse text = .ok program) :
    LaidOut (LexemeStream.ofText text).lexemes program.span.start.toNat
      (program.nodes.map .node) program.span.stop.toNat ∧
      program.span.stop.toNat ≤ byteLength text.toList := by
  obtain ⟨offset, hending, hprogram⟩ := isProgram_of_parse h
  have hplaced : (LexemeStream.ofText text).Placed text.toList 0 :=
    LexemeStream.placed_ofChars hlt
  have ho := hplaced.inOrder
  rw [hending] at ho
  obtain ⟨hlaid, hstop⟩ := hprogram.laidOut ho
  rw [← hplaced.eof offset hending]
  exact ⟨hlaid, UInt32.le_iff_toNat_le.1 hstop⟩

/-- **The spans of a parsed program follow its tree**, if its text is shorter than 4 GiB. Every part
has a span of some bytes within the text, from the start of a lexeme to the end of one, and this
span holds the parts right inside it. So does the span of the program with its nodes. -/
theorem spans_of_parse (hlt : byteLength text.toList < 2 ^ 32) (h : parse text = .ok program) :
    (∀ part, program.HasPart part →
      part.span.Among (LexemeStream.ofText text).lexemes ∧
        part.span.stop.toNat ≤ byteLength text.toList ∧ part.span.Holds part.children) ∧
      program.span.Holds (program.nodes.map .node) ∧ program.span.start ≤ program.span.stop ∧
      program.span.stop.toNat ≤ byteLength text.toList := by
  obtain ⟨hlaid, hstop⟩ := laidOut_of_parse hlt h
  refine ⟨fun part hpart => ?_, hlaid.holds, UInt32.le_iff_toNat_le.2 hlaid.le, hstop⟩
  obtain ⟨hamong, hle, hinside⟩ := hpart.laidOut hlaid
  exact ⟨hamong, Nat.le_trans hle hstop, hinside.holds⟩

/-- Parentheses around a condition and around an index, and an `else if` with the span of the `if`
in it. -/
theorem spans_of_parse_elseIf : ∃ program,
    byteLength "if (a) { b } else if c[(d)] { }".toList < 2 ^ 32 ∧
    parse "if (a) { b } else if c[(d)] { }" = .ok program ∧
      (∀ part, program.HasPart part →
        part.span.Among (LexemeStream.ofText "if (a) { b } else if c[(d)] { }").lexemes ∧
          part.span.stop.toNat ≤ byteLength "if (a) { b } else if c[(d)] { }".toList ∧
          part.span.Holds part.children) ∧
        program.span.Holds (program.nodes.map .node) ∧ program.span.start ≤ program.span.stop ∧
        program.span.stop.toNat ≤ byteLength "if (a) { b } else if c[(d)] { }".toList := by
  have hlt : byteLength "if (a) { b } else if c[(d)] { }".toList < 2 ^ 32 := by decide +kernel
  have hparse : parse "if (a) { b } else if c[(d)] { }" =
      .ok ⟨[.conditional (.name ⟨"a", 4, 5⟩) ⟨[.expression (.name ⟨"b", 9, 10⟩)], 7, 12⟩
        (some ⟨[.conditional (.index (.name ⟨"c", 21, 22⟩) (.name ⟨"d", 24, 25⟩) ⟨21, 27⟩)
          ⟨[], 28, 31⟩ none ⟨18, 31⟩], 18, 31⟩) ⟨0, 31⟩], 0, 31⟩ := by rfl
  exact ⟨_, hlt, hparse, spans_of_parse hlt hparse⟩

/-- Behind 4 GiB of spaces but one, a name of two letters ends in front of where it starts. -/
theorem not_spans_of_parse_long :
    let text := String.ofList (List.replicate (2 ^ 32 - 1) ' ' ++ ['a', 'b'])
    let name : Ident := ⟨"ab", 4294967295, 1⟩
    parse text = .ok ⟨[.expression (.name name)], 4294967295, 4294967295⟩ ∧
      ¬ name.span.start < name.span.stop := by
  intro text name
  have hreadings : (Cursor.ofChars text.toList).readings =
      [.ok ⟨.name "ab", ⟨4294967295, 1⟩⟩, .ok ⟨.eof, ⟨1, 1⟩⟩] := by
    rw [String.toList_ofList, Cursor.ofChars, Cursor.readings_spaces]
    rfl
  refine ⟨?_, by decide⟩
  rw [parse, LexemeStream.ofText, LexemeStream.ofChars, hreadings]
  rfl

end Program

end Script
