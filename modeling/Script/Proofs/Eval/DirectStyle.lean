import Script.Proofs.Eval.Agreement
import Script.Proofs.Eval.CallLimit
import Script.Proofs.Eval.Direct

/-!
# Pending returns are direct style

Leaving a return pending in a scope, and looking there after each node, comes to the same as
evaluation in direct style. One evaluation *follows* another if it does the same and, where the
other returns, leaves the value pending instead (`Follows`). In a store at rest every node and every
list of nodes follows its evaluation in direct style, calls agree, and so do programs:

* `follows_node`, `follows_nodes`: nodes and lists of nodes;
* `callersAgree`: calls;
* `program_eq_direct`: programs.
-/

namespace Script

namespace Eval

open Store (AtRest Settles HasScope)

variable {α : Type}

/-- Turns what a node comes to into what it leaves behind: a return is left pending. -/
def settle (scope : Ref .scope) : Flow → Eval Value
  | .normal value => return value
  | .returned value => do
    modify (·.setReturn scope value)
    return .null

/-- One evaluation follows another in direct style if it leaves pending what the other returns,
and is the same otherwise. -/
def Follows (scope : Ref .scope) (x : Eval Value) (y : Eval Flow) (s : Store) : Prop :=
  x s = (y >>= settle scope) s ∧ KeepsRest y s

/-! ### Steps -/

section Steps

variable {s : Store} {scope : Ref .scope}

theorem Follows.bind {x y : Eval α} {f : α → Eval Value} {g : α → Eval Flow} (h : Agree x y s)
    (hf : ∀ a s', y s = .ok a s' → s.Settles s' → Follows scope (f a) (g a) s') :
    Follows scope (x >>= f) (y >>= g) s := by
  obtain ⟨heq, hrest⟩ := h
  refine ⟨?_, hrest.bind fun a s' hy hs' => (hf a s' hy hs').2⟩
  cases hy : y s with
  | error e s' => rw [bind_error (heq.trans hy), bind_error (bind_error hy)]
  | ok a s' =>
    rw [bind_ok (heq.trans hy), (hf a s' hy (hrest.of_ok hy)).1]
    exact (bind_bind_ok hy).symm

theorem follows_normal (hs : s.AtRest) (value : Value) :
    Follows scope (pure value) (pure (.normal value)) s :=
  ⟨rfl, Settles.refl hs⟩

/-- A return in direct style is one that is left pending. -/
theorem follows_returned (hs : s.AtRest) (value : Value) :
    Follows scope (do modify (·.setReturn scope value); return .null) (pure (.returned value)) s :=
  ⟨rfl, Settles.refl hs⟩

/-- What follows in a block follows in the scope around it. -/
theorem Follows.of_block (hs : s.AtRest) (hscope : s.HasScope scope) {x : Ref .scope → Eval Value}
    {y : Ref .scope → Eval Flow}
    (h : ∀ block s', s'.AtRest → s'.HasScope block → Follows block (x block) (y block) s') :
    Follows scope (inner .block scope >>= x) (inner .block scope >>= y) s := by
  -- the block opens a scope inside `scope`, the same on both sides
  refine Follows.bind (agree_inner hs .block hscope) fun block s' hinner hs' => ?_
  obtain ⟨rfl, rfl⟩ : (s.addScope .block (some scope)).1 = block ∧
      (s.addScope .block (some scope)).2 = s' := by
    cases hinner
    exact ⟨rfl, rfl⟩
  obtain ⟨heq, hrest⟩ := h _ _ hs'.atRest (Store.hasScope_addScope _ _)
  refine ⟨heq.trans ?_, hrest⟩
  cases hy : y (s.addScope .block (some scope)).1 (s.addScope .block (some scope)).2 with
  | error e s'' => rw [bind_error hy, bind_error hy]
  | ok flow s'' =>
    rw [bind_ok hy, bind_ok hy]
    cases flow with
    | normal value => rfl
    | returned value =>
      -- the block is still a block inside `scope`, so the return goes to the boundary of `scope`
      obtain ⟨scope', hget, hkind, hparent⟩ := (hrest.of_ok hy).grows
        (s.addScope .block (some scope)).1 ⟨.block, some scope, ∅, none⟩
        (by rw [Store.get?_addScope]; exact if_pos rfl)
      have heq := Store.setReturn_eq_of_block (hrest.of_ok hy).atRest.wellFormed hget hkind hparent
        value
      show EStateM.Result.ok Value.null (s''.setReturn _ value) = .ok Value.null _
      rw [heq]

/-- A list of nodes stops where a return is pending, which is where a node has returned. -/
theorem Follows.cons (hscope : s.HasScope scope) {x : Eval Value} {y : Eval Flow}
    {rest : Eval Unit} {rest' : Eval Flow} (h : Follows scope x y s)
    (hrest : ∀ s', s'.AtRest → s'.HasScope scope →
      Follows scope (do rest; return .null) rest' s') :
    Follows scope
      (do
        (do
          let _ ← x
          if (← get).isReturning scope then return () else rest)
        return .null)
      (do
        match ← y with
        | .returned value => return .returned value
        | .normal _ => rest') s := by
  obtain ⟨heq, hy⟩ := h
  rw [bind_assoc]
  constructor
  · cases hflow : y s with
    | error e s' =>
      rw [bind_error hflow] at heq
      rw [bind_error heq, bind_error (bind_error hflow)]
    | ok flow s' =>
      rw [bind_ok hflow] at heq
      have hs' := hy.of_ok hflow
      have hscope' := hs'.grows.hasScope hscope
      rw [bind_bind_ok hflow]
      cases flow with
      | normal value =>
        -- nothing is pending at rest, so the list goes on
        have hnone : s'.isReturning scope = false := by
          rw [Store.isReturning, Store.pendingReturn?_eq_none hs'.atRest.quiet]
          rfl
        have hx : x s = .ok value s' := heq
        rw [bind_ok hx, ← (hrest s' hs'.atRest hscope').1]
        show ((if s'.isReturning scope then pure () else rest) >>= fun _ => pure Value.null) s' = _
        rw [hnone]
        rfl
      | returned value =>
        -- what was left pending is found from the same scope, so the list stops
        have hsome : (s'.setReturn scope value).isReturning scope = true := by
          rw [Store.isReturning, Store.pendingReturn?_setReturn hs'.atRest.wellFormed hscope']
          rfl
        have hx : x s = .ok .null (s'.setReturn scope value) := heq
        rw [bind_ok hx]
        show ((if (s'.setReturn scope value).isReturning scope then pure () else rest) >>=
          fun _ => pure Value.null) (s'.setReturn scope value) = _
        rw [hsome]
        rfl
  · refine hy.bind fun flow s' _ hs' => ?_
    cases flow with
    | normal value => exact (hrest s' hs'.atRest (hs'.grows.hasScope hscope)).2
    | returned value => exact Settles.refl hs'.atRest

end Steps

/-! ### Nodes -/

section Nodes

variable {call call' : Caller}

mutual

/-- **Every node follows its evaluation in direct style**, if calls agree. -/
theorem follows_node (hcall : CallersAgree call call') {scope : Ref .scope} : ∀ (n : Node)
    {s : Store}, s.AtRest → s.HasScope scope →
    Follows scope (node call scope n) (Direct.node call' scope n) s
  | .binding ident value _, s, hs, hscope => by
    rw [node, Direct.node]
    refine Follows.bind (agree_expression hcall value hs hscope) fun v s₁ _ hs₁ => ?_
    have hdefine := Store.settles_define hs₁.atRest scope ident.name v
    exact Follows.bind (agree_modify hdefine) fun _ s₂ _ hs₂ => follows_normal hs₂.atRest .null
  | .returning none _, s, hs, _ => by
    rw [node, Direct.node]
    exact follows_returned hs .null
  | .returning (some value) _, s, hs, hscope => by
    rw [node, Direct.node]
    exact Follows.bind (agree_expression hcall value hs hscope)
      fun v s₁ _ hs₁ => follows_returned hs₁.atRest v
  | .conditional condition consequence none _, s, hs, hscope => by
    rw [node, Direct.node]
    refine Follows.bind (agree_expression hcall condition hs hscope) fun c s₁ _ hs₁ => ?_
    dsimp only
    split
    · exact Follows.of_block hs₁.atRest (hs₁.grows.hasScope hscope)
        fun _ _ hs₂ hblock => follows_block hcall consequence hs₂ hblock
    · exact follows_normal hs₁.atRest .null
  | .conditional condition consequence (some alternative) _, s, hs, hscope => by
    rw [node, Direct.node]
    refine Follows.bind (agree_expression hcall condition hs hscope) fun c s₁ _ hs₁ => ?_
    have hscope₁ := hs₁.grows.hasScope hscope
    dsimp only
    split
    · exact Follows.of_block hs₁.atRest hscope₁
        fun _ _ hs₂ hblock => follows_block hcall consequence hs₂ hblock
    · exact Follows.of_block hs₁.atRest hscope₁
        fun _ _ hs₂ hblock => follows_block hcall alternative hs₂ hblock
  | .expression value, s, hs, hscope => by
    rw [node, Direct.node]
    have hvalue := agree_expression hcall value hs hscope
    -- in direct style a step follows that has no counterpart
    have hpure : expression call scope value = expression call scope value >>= pure :=
      (bind_pure _).symm
    rw [hpure]
    exact Follows.bind hvalue fun v s₁ _ hs₁ => follows_normal hs₁.atRest v
termination_by structural n => n

/-- **Every list of nodes follows its evaluation in direct style**: one stops where a return is
pending, the other where a node has returned. -/
theorem follows_nodes (hcall : CallersAgree call call') {scope : Ref .scope} : ∀ (ns : List Node)
    {s : Store}, s.AtRest → s.HasScope scope →
    Follows scope (do nodes call scope ns; return .null) (Direct.nodes call' scope ns) s
  | [], s, hs, _ => by
    rw [nodes, Direct.nodes]
    exact follows_normal hs .null
  | n :: rest, s, hs, hscope => by
    rw [nodes, Direct.nodes]
    exact (follows_node hcall n hs hscope).cons hscope
      fun _ hs' hscope' => follows_nodes hcall rest hs' hscope'
termination_by structural ns => ns

theorem follows_block (hcall : CallersAgree call call') {scope : Ref .scope} : ∀ (b : Block)
    {s : Store}, s.AtRest → s.HasScope scope →
    Follows scope (do block call scope b; return .null) (Direct.block call' scope b) s
  | ⟨ns, _⟩, s, hs, hscope => by
    rw [block, Direct.block]
    exact follows_nodes hcall ns hs hscope
termination_by structural b => b

end

end Nodes

/-! ### Calls and programs -/

section Calls

variable {s : Store} {scope : Ref .scope}

/-- What is left pending is taken back: where one evaluation follows another and the pending
return is taken then, it is known whether and what the other returned, and nothing is left of it. -/
theorem Follows.takeReturn (hscope : s.HasScope scope) {x : Eval Value} {y : Eval Flow}
    (h : Follows scope x y s) (f : Value → Option Value → Eval α) :
    (do
      let value ← x
      let returned ← takeReturn scope
      f value returned) s =
    (do
      match ← y with
      | .normal value => f value none
      | .returned value => f .null (some value)) s := by
  obtain ⟨heq, hy⟩ := h
  cases hflow : y s with
  | error e s' =>
    rw [bind_error hflow] at heq
    rw [bind_error heq, bind_error hflow]
  | ok flow s' =>
    rw [bind_ok hflow] at heq
    have hs' := hy.of_ok hflow
    have hscope' := hs'.grows.hasScope hscope
    rw [bind_ok hflow]
    cases flow with
    | normal value =>
      -- nothing is pending, so there is nothing to take
      have htake : Eval.takeReturn scope s' = .ok none s' := by
        rw [Eval.takeReturn, get_bind, Store.pendingReturn?_eq_none hs'.atRest.quiet]
        rfl
      have hx : x s = .ok value s' := heq
      rw [bind_ok hx, bind_ok htake]
    | returned value =>
      -- what is taken is what was left, and the store is as if it had never been left
      have htake : Eval.takeReturn scope (s'.setReturn scope value) = .ok (some value) s' := by
        rw [Eval.takeReturn, get_bind,
          Store.pendingReturn?_setReturn hs'.atRest.wellFormed hscope']
        show EStateM.Result.ok (some value) ((s'.setReturn scope value).clearReturn scope) = _
        rw [Store.clearReturn_setReturn hs'.atRest hscope']
      have hx : x s = .ok .null (s'.setReturn scope value) := heq
      rw [bind_ok hx, bind_ok htake]

end Calls

/-- A body followed by taking its return agrees with the body in direct style. -/
theorem Follows.agree_result {s : Store} {scope : Ref .scope} (hscope : s.HasScope scope)
    {x : Eval Unit} {y : Eval Flow} (h : Follows scope (do x; return .null) y s) :
    Agree (do x; return (← Eval.takeReturn scope).getD .null)
      (do return Direct.result (← y)) s := by
  constructor
  · have htake := h.takeReturn hscope fun _ returned => pure (returned.getD .null)
    rw [bind_assoc] at htake
    refine htake.trans (congrFun (congrArg _ (funext fun flow => ?_)) s)
    cases flow <;> rfl
  · exact h.2.bind fun flow s' _ hs' => Settles.refl hs'.atRest

theorem hasScope_of_enter {s s' : Store} {closure : Closure} {arguments : List Value}
    {scope : Ref .scope} (hs : s.AtRest) (hscope : s.HasScope closure.scope)
    (h : enter closure arguments s = .ok scope s') : s'.HasScope scope := by
  have hparent : ∀ p, some closure.scope = some p → s.HasScope p := by
    rintro p ⟨⟩
    exact hscope
  have hsettles := Store.settles_addScope hs .function hparent
  cases h
  exact (settles_bindParameters hsettles.atRest _ _).grows.hasScope (Store.hasScope_addScope _ _)

/-- **Calls agree with calls in direct style**, however many may become active. -/
theorem callersAgree : ∀ n, CallersAgree (callWithin n) (Direct.callWithin n)
  -- by induction on the calls left: a body makes its own calls with one fewer
  | 0, ref, arguments, span, s, hs => by
    rw [callWithin, Direct.callWithin]
    exact (agree_callee hs ref arguments span).bind fun _ s' _ hs' => agree_fail hs'.atRest _ _
  | n + 1, ref, arguments, span, s, hs => by
    rw [callWithin, Direct.callWithin]
    refine (agree_callee hs ref arguments span).bind fun closure s₁ hcallee hs₁ => ?_
    obtain ⟨hget, -, rfl⟩ := callee_eq_ok_iff.1 hcallee
    -- the scope that the closure captured is still there
    have hclosure := hs.wellFormed.closure_scope hget
    refine (agree_enter hs hclosure arguments).bind fun scope s₂ henter hs₂ => ?_
    have hscope := hasScope_of_enter hs hclosure henter
    have hbody := follows_block (callersAgree n) closure.body hs₂.atRest hscope
    exact hbody.agree_result hscope

theorem agree_topLevel {call call' : Caller} (hcall : CallersAgree call call')
    {scope : Ref .scope} : ∀ (ns : List Node) (last : Value) {s : Store}, s.AtRest →
    s.HasScope scope →
    Agree (topLevel call scope last ns) (Direct.topLevel call' scope last ns) s
  | [], last, s, hs, _ => by
    rw [topLevel, Direct.topLevel]
    exact agree_pure hs last
  | n :: rest, last, s, hs, hscope => by
    rw [topLevel, Direct.topLevel]
    have hnode := follows_node hcall n hs hscope
    have hrest : ∀ value s', s.Settles s' →
        Agree (topLevel call scope value rest) (Direct.topLevel call' scope value rest) s' :=
      fun value s' hs' =>
        agree_topLevel hcall rest value hs'.atRest (hs'.grows.hasScope hscope)
    -- the results agree, and the store is settled after the node and after the rest
    constructor
    · refine (hnode.takeReturn hscope _).trans ?_
      cases hflow : Direct.node call' scope n s with
      | error e s' => rw [bind_error hflow, bind_error hflow]
      | ok flow s' =>
        rw [bind_ok hflow, bind_ok hflow]
        cases flow with
        | normal value => exact (hrest value s' (hnode.2.of_ok hflow)).1
        | returned value => rfl
    · refine hnode.2.bind fun flow s' _ hs' => ?_
      cases flow with
      | normal value => exact (hrest value s' hs').2
      | returned value => exact Settles.refl hs'.atRest

theorem agree_program {s : Store} {scope : Ref .scope} (hs : s.AtRest) (hscope : s.HasScope scope)
    (p : Program) : Agree (program scope p) (Direct.program scope p) s :=
  agree_topLevel (callersAgree maxCalls) p.nodes .null hs hscope

/-- **Evaluation of programs is evaluation in direct style.** In any scope of a store where no
return is pending, a program gives the same value or the same error, and leaves the same store. -/
theorem program_eq_direct {s : Store} {scope : Ref .scope} (hw : s.WellFormed) (hq : s.Quiet)
    (hscope : s.HasScope scope) (p : Program) :
    program scope p s = Direct.program scope p s :=
  (agree_program ⟨hw, hq⟩ hscope p).1

/-- A return out of an `if` inside a function that a top-level return calls:
`let f = fn(x) { if x { return 1 } 2 }; return f(true); 3`. -/
theorem program_eq_direct_nested_return :
    let root := Store.empty.addRoot
    let at0 : Span := .point 0
    let one : Expr := .integer 1 at0
    let body : Block := ⟨[
      .conditional (.name ⟨"x", at0⟩) ⟨[.returning (some one) at0], at0⟩ none at0,
      .expression (.integer 2 at0)], at0⟩
    let p : Program := ⟨[.binding ⟨"f", at0⟩ (.function [⟨"x", at0⟩] body at0) at0,
      .returning (some (.call (.name ⟨"f", at0⟩) [.boolean true at0] at0)) at0,
      .expression (.integer 3 at0)], at0⟩
    root.2.WellFormed ∧ root.2.Quiet ∧ root.2.HasScope root.1 ∧
      program root.1 p root.2 = Direct.program root.1 p root.2 :=
  have hs := (Store.settles_addScope Store.atRest_empty .root (by rintro p ⟨⟩)).atRest
  have hscope := Store.hasScope_addScope .root none
  ⟨hs.wellFormed, hs.quiet, hscope, program_eq_direct hs.wellFormed hs.quiet hscope _⟩

end Eval

end Script
