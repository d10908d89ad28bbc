import Script.Proofs.Eval.Collapse
import Script.Proofs.Eval.Confinement
import Script.Proofs.Grammar

/-!
# Conditions one after another

An `if` after `else` is read as an alternative of one node, so in a chain of them each condition but
the first is evaluated in a block that was made for it, inside of the one made for the condition
before. None of this can be seen: a chain does what it says when its conditions are evaluated in the
scope of the whole chain, one after another up to the first that is true, and the block after that
one in a new block directly inside of the scope. What remains are empty blocks, around functions
that conditions have made.

* `Node.chain`, `Grammar.derives_conditional_iff`: the trees of chains, and that `if`s are chains;
* `Eval.branches`: what a chain says;
* `Eval.matches_chain`: a chain does that, by induction on the branches;
* `Eval.chain_transparent`: what is the same afterwards, and what is not.
-/

namespace Script

/-! ### Chains -/

/-- A condition and the block after it. The span is that of the `if` that begins there. -/
structure Branch where
  condition : Expr
  block : Block
  span : Span

/-- The tree of a chain. After each `else` but the last there is an `if` again, alone in a block
that no braces stand around. -/
def Node.chain (branch : Branch) : List Branch → Option Block → Node
  | [], last => .conditional branch.condition branch.block last branch.span
  | next :: rest, last =>
    .conditional branch.condition branch.block (some ⟨[chain next rest last], next.span⟩)
      branch.span

namespace Grammar

/-- The lexemes of a chain: `if`, a condition and a block, then perhaps `else` and either a
block or a chain again. -/
inductive DerivesChain : List Lexeme → Branch → List Branch → Option Block → Prop
  | alone {l l' c b o} (hc : Derives (.expression .assignment) l c) (hb : Derives .block l' b) :
      DerivesChain (⟨.keyword .ifWord, o⟩ :: (l ++ l')) ⟨c, b, ⟨o.start, b.span.stop⟩⟩ [] none
  | otherwise {l l' l'' c b a o w} (hc : Derives (.expression .assignment) l c)
      (hb : Derives .block l' b) (ha : Derives .block l'' a) :
      DerivesChain (⟨.keyword .ifWord, o⟩ :: (l ++ (l' ++ ⟨.keyword .elseWord, w⟩ :: l'')))
        ⟨c, b, ⟨o.start, a.span.stop⟩⟩ [] (some a)
  | further {l l' l'' c b o w next rest last} (hc : Derives (.expression .assignment) l c)
      (hb : Derives .block l' b) (hnext : DerivesChain l'' next rest last) :
      DerivesChain (⟨.keyword .ifWord, o⟩ :: (l ++ (l' ++ ⟨.keyword .elseWord, w⟩ :: l'')))
        ⟨c, b, ⟨o.start, next.span.stop⟩⟩ (next :: rest) last

theorem span_chain (branch : Branch) (rest : List Branch) (last : Option Block) :
    (Node.chain branch rest last).span = branch.span := by
  cases rest <;> rfl

/-- The tree of a chain is read from its lexemes. -/
theorem derives_chain {l : List Lexeme} {branch : Branch} {rest : List Branch}
    {last : Option Block} (h : DerivesChain l branch rest last) :
    Derives .conditional l (Node.chain branch rest last) := by
  induction h with
  | alone hc hb => exact .conditional hc hb
  | otherwise hc hb ha => exact .conditionalElse hc hb (.alternativeBlock ha)
  | @further l l' l'' c b o w next rest last hc hb _ ih =>
    have halternative := Derives.alternativeConditional ih
    rw [span_chain] at halternative
    exact .conditionalElse hc hb halternative

/-- Every `if` is a chain, by induction on its lexemes: what follows `else` has fewer. -/
theorem exists_chain_of_derives {l : List Lexeme} {n : Node} (h : Derives .conditional l n) :
    ∃ branch rest last, DerivesChain l branch rest last ∧ n = Node.chain branch rest last := by
  generalize hlength : l.length = k
  induction k using Nat.strongRecOn generalizing l n with
  | ind k ih =>
    cases h with
    | conditional hc hb => exact ⟨_, _, _, .alone hc hb, rfl⟩
    | conditionalElse hc hb ha =>
      cases ha with
      | alternativeBlock ha => exact ⟨_, _, _, .otherwise hc hb ha, rfl⟩
      | alternativeConditional hn =>
        simp only [List.length_cons, List.length_append] at hlength
        obtain ⟨next, rest, last, hchain, rfl⟩ := ih _ (by omega) hn rfl
        rw [span_chain]
        exact ⟨_, _, _, .further hc hb hchain, rfl⟩

theorem derives_conditional_iff {l : List Lexeme} {n : Node} : Derives .conditional l n ↔
    ∃ branch rest last, DerivesChain l branch rest last ∧ n = Node.chain branch rest last := by
  constructor
  · exact exists_chain_of_derives
  · rintro ⟨branch, rest, last, h, rfl⟩
    exact derives_chain h

end Grammar

namespace Eval

open Store (Collapse)

/-- What a chain says: its conditions are evaluated in the scope itself, up to the first that is
true, and then the block after that one in a block directly inside of the scope; if none is true,
the last block, or nothing. -/
def branches (call : Caller) (scope : Ref .scope) : List Branch → Option Block → Eval Unit
  | [], none => return ()
  | [], some last => do block call (← inner .block scope) last
  | branch :: rest, last => do
    let v ← expression call scope branch.condition
    if v.isTruthy then
      block call (← inner .block scope) branch.block
    else
      branches call scope rest last

/-! ### Chains do what they say -/

section Chain

variable {s t : Store} {call : Caller}

/-- A node alone in a block does what it does, whatever it returns. -/
theorem block_singleton (call : Caller) (scope : Ref .scope) (n : Node) (span : Span) :
    (do block call scope ⟨[n], span⟩; return .null : Eval Value) =
      (do let _ ← node call scope n; return .null) := by
  funext s
  rw [block, nodes, bind_assoc]
  refine bind_congr_right fun v s' _ => ?_
  rw [bind_assoc, get_bind]
  split <;> rfl

/-- One branch of a chain: the block after a condition that is true, or else the rest. -/
theorem matches_branch (hcall : SeesNoBlocks call) (c : Collapse s t) {r r' : Ref .scope}
    (hr : c.Sends r r') (branch : Branch) {x : Eval Value} {y : Eval Unit}
    (hrest : ∀ {s' t' : Store} (c' : Collapse s' t'), c'.Sends r r' →
      Matches c' (x s') ((do y; return .null : Eval Value) t')) :
    Matches c
      ((do
        let v ← expression call r branch.condition
        if v.isTruthy then
          do block call (← inner .block r) branch.block; return .null
        else x : Eval Value) s)
      ((do
        let v ← expression call r' branch.condition
        (do if v.isTruthy then block call (← inner .block r') branch.block else y)
        return .null : Eval Value) t) := by
  refine (matches_expression hcall branch.condition c hr).bind fun v s₁ t₁ c₁ h₁ => ?_
  have hr₁ := h₁.sends hr
  by_cases htrue : v.isTruthy = true
  · rw [if_pos htrue, if_pos htrue, bind_assoc]
    exact matches_ownBlock hr₁ fun c₂ _ _ hq => matches_block hcall branch.block c₂ hq
  · rw [if_neg htrue, if_neg htrue]
    exact hrest c₁ hr₁

/-- **A chain does what it says**, up to empty blocks, by induction on its branches. -/
theorem matches_chain (hcall : SeesNoBlocks call) (last : Option Block) : ∀ (rest : List Branch)
    (branch : Branch) {s t : Store} (c : Collapse s t) {r r' : Ref .scope}, c.Sends r r' →
      Matches c (node call r (Node.chain branch rest last) s)
        ((do branches call r' (branch :: rest) last; return .null : Eval Value) t)
  | [], branch, s, t, c, r, r', hr => by
    rw [branches, bind_assoc]
    cases last with
    | none =>
      rw [Node.chain, node]
      refine matches_branch hcall c hr branch fun c₁ _ => ?_
      exact matches_pure c₁ _
    | some last =>
      rw [Node.chain, node]
      refine matches_branch hcall c hr branch fun c₁ hr₁ => ?_
      rw [branches, bind_assoc]
      exact matches_ownBlock hr₁ fun c₂ _ _ hq => matches_block hcall last c₂ hq
  | next :: rest, branch, s, t, c, r, r', hr => by
    rw [branches, bind_assoc, Node.chain, node]
    refine matches_branch hcall c hr branch fun {s₁ t₁} c₁ hr₁ => ?_
    -- the rest is evaluated in a block of its own, which the second store does without
    refine matches_inner_bind_left
      (y := (do branches call r' (next :: rest) last; return .null : Eval Value)) hr₁
      fun {s₂} c₂ q _ hq => ?_
    have hrest := (matches_chain hcall last rest next c₂ hq).bind fun _ _ _ c₃ _ =>
      matches_pure c₃ Value.null
    rw [bind_assoc] at hrest
    have hblock := congrFun (block_singleton call q (Node.chain next rest last) next.span) s₂
    exact hblock ▸ hrest

end Chain

/-! ### What is the same afterwards -/

/-- Two stores are alike since an earlier one: in each scope that there was the same is bound
and the same return is pending, and arrays and maps have the same contents. The first store
collapses into the second, and the scopes that there were stay; so all that the first store has more
are empty blocks, and each function of the first, with its chain of scopes, is one of the second
once these blocks are taken out. -/
structure AlikeSince (before s t : Store) : Prop where
  scopes : ∀ ref, before.HasScope ref → s.scopes.get? ref = t.scopes.get? ref
  pending : ∀ ref, before.HasScope ref → s.pendingReturn? ref = t.pendingReturn? ref
  arrays : s.arrays = t.arrays
  maps : s.maps = t.maps
  collapses : ∃ c : Collapse s t,
    (∀ ref, before.HasScope ref → c.image ref = ref ∧ c.kept ref = true) ∧
      ∀ ref, s.HasScope ref → t.chain (c.image ref) = ((s.chain ref).filter c.kept).map c.image

/-- Two evaluations end alike if both succeed or both fail with the same error, in stores that
are alike. The first is that of a node, whose value is null then. -/
inductive EndAlike (before : Store) : EStateM.Result RuntimeError Store Value →
    EStateM.Result RuntimeError Store Unit → Prop
  | ok {s t : Store} (h : AlikeSince before s t) : EndAlike before (.ok .null s) (.ok () t)
  | error (error : RuntimeError) {s t : Store} (h : AlikeSince before s t) :
      EndAlike before (.error error s) (.error error t)

theorem alikeSince_of_extends {before s t : Store} (hw : before.WellFormed) {c : Collapse s t}
    (h : (Collapse.refl hw).Extends c) : AlikeSince before s t where
  scopes ref href := by
    obtain ⟨scope, hs⟩ := href
    obtain ⟨scope', hs', -, hparent⟩ := h.grows ref scope hs
    have himage : c.image ref = ref := h.image_eq ⟨scope, hs⟩
    have hkept := c.get?_kept hs' (h.kept_eq ⟨scope, hs⟩)
    have hsame : scope'.parent.map c.image = scope'.parent := by
      rw [hparent]
      cases hp : scope.parent with
      | none => rfl
      | some parent => exact congrArg some (h.image_eq (hw.hasScope_parent hs hp))
    rw [himage, hsame] at hkept
    exact hs'.trans hkept.symm
  pending ref href := by
    have hpending := c.pendingReturn?_image (h.grows.hasScope href)
    rw [show c.image ref = ref from h.image_eq href] at hpending
    exact hpending.symm
  arrays := c.arrays_eq.symm
  maps := c.maps_eq.symm
  collapses := ⟨c, fun _ href => ⟨h.image_eq href, h.kept_eq href⟩, c.chain_image⟩

/-- **Chains are transparent.** The tree of a chain is that of its lexemes; and it is evaluated as
the chain says, in any scope of any store whose links lead somewhere, however many calls are active
already: with the same outcome, and in stores that are alike up to empty blocks. -/
theorem chain_transparent (n : Nat) (branch : Branch) (rest : List Branch) (last : Option Block)
    {s : Store} (hs : s.WellFormed) {scope : Ref .scope} (hscope : s.HasScope scope) :
    (∀ l, Grammar.DerivesChain l branch rest last →
      Grammar.Derives .conditional l (Node.chain branch rest last)) ∧
    EndAlike s (node (callWithin n) scope (Node.chain branch rest last) s)
      (branches (callWithin n) scope (branch :: rest) last s) := by
  refine ⟨fun l h => Grammar.derives_chain h, ?_⟩
  have hmatches := matches_chain (matches_callWithin n) last rest branch (.refl hs) ⟨hscope, rfl⟩
  generalize node (callWithin n) scope (Node.chain branch rest last) s = first at hmatches ⊢
  cases hbranches : branches (callWithin n) scope (branch :: rest) last s with
  | ok a t =>
    rw [show (Collapse.refl hs).image scope = scope from rfl, bind_ok hbranches] at hmatches
    cases hmatches with
    | ok _ c h => exact .ok (alikeSince_of_extends hs h)
  | error error t =>
    rw [show (Collapse.refl hs).image scope = scope from rfl, bind_error hbranches] at hmatches
    cases hmatches with
    | error _ c h => exact .error error (alikeSince_of_extends hs h)

/-- A function that the second condition makes, and the block after it calls:
`if false {} else if f = fn() { return x } { return f() }`. Its chain of scopes has one empty block
more than it would have if the condition had been evaluated in the root. -/
theorem chain_transparent_function :
    let at0 : Span := .point 0
    let f : Expr := .name ⟨"f", at0⟩
    let body : Block := ⟨[.returning (some (.name ⟨"x", at0⟩)) at0], at0⟩
    let first : Branch := ⟨.boolean false at0, ⟨[], at0⟩, at0⟩
    let second : Branch := ⟨.assign f (.function [] body at0) at0,
      ⟨[.returning (some (.call f [] at0)) at0], at0⟩, at0⟩
    let root := Store.empty.addRoot
    let s := (root.2.define root.1 "x" (.integer 1)).define root.1 "f" .null
    let after := storeAfter (node (callWithin 1) root.1 (Node.chain first [second] none) s)
    let after' := storeAfter (branches (callWithin 1) root.1 [first, second] none s)
    s.WellFormed ∧ s.HasScope root.1 ∧
      EndAlike s (node (callWithin 1) root.1 (Node.chain first [second] none) s)
        (branches (callWithin 1) root.1 [first, second] none s) ∧
      after.pendingReturn? root.1 = some (.integer 1) ∧
      (after.closures.get? ⟨0⟩).map (after.chain ·.scope) = some [⟨1⟩, root.1] ∧
      (after'.closures.get? ⟨0⟩).map (after'.chain ·.scope) = some [root.1] := by
  intro at0 f body first second root s after after'
  have hroot : root.2.AtRest :=
    (Store.settles_addScope Store.atRest_empty .root (by rintro p ⟨⟩)).atRest
  have hx := (Store.settles_define hroot root.1 "x" (.integer 1)).atRest
  have hs : s.WellFormed := (Store.settles_define hx root.1 "f" .null).atRest.wellFormed
  have hscope : s.HasScope root.1 := ⟨_, rfl⟩
  -- the chains of scopes differ by the empty block, which the general statement allows
  refine ⟨hs, hscope, (chain_transparent 1 first [second] none hs hscope).2, ?_, ?_, ?_⟩
  · decide +kernel
  · decide +kernel
  · decide +kernel

end Eval

end Script
