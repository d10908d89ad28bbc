import Script.Proofs.Eval.CallLimit
import Script.Proofs.Eval.Rules
import Script.Proofs.Store.KeepsReturns

/-!
# What evaluation leaves pending

Whatever is pending in the scopes of a store, an expression keeps it, also where it fails: the calls
in it take what their bodies leave. A node may end with one return more, left pending for its own
scope, and then its value is null; where it fails it leaves nothing.

* `keeps_expression`: expressions, if calls keep the returns;
* `leaves_node`, `leaves_nodes`: nodes and lists of nodes;
* `keeps_callWithin`: calls, by induction on how many may still become active.
-/

namespace Script

namespace Eval

open Store (KeepsReturns HasScope WellFormed)

variable {α β : Type} {s s' : Store}

/-! ### How an evaluation may end -/

/-- An evaluation ends in a certain way if it succeeds, and keeps the returns if it fails. -/
def EndsIn (P : Store → α → Store → Prop) (x : Eval α) (s : Store) : Prop :=
  match x s with
  | .ok a s' => P s a s'
  | .error _ s' => s.KeepsReturns s'

/-- An evaluation keeps the returns, whether it succeeds or fails. -/
abbrev Keeps (x : Eval α) (s : Store) : Prop :=
  EndsIn (fun s _ s' => s.KeepsReturns s') x s

/-- What a node may come to: it keeps the returns, or it is null and has left one pending. -/
def Left (scope : Ref .scope) (s : Store) (value : Value) (s' : Store) : Prop :=
  s.KeepsReturns s' ∨
    value = .null ∧ ∃ returned s₁, s.KeepsReturns s₁ ∧ s' = s₁.setReturn scope returned

/-- An evaluation leaves one return pending at most, for its scope. -/
abbrev Leaves (scope : Ref .scope) (x : Eval Value) (s : Store) : Prop :=
  EndsIn (Left scope) x s

theorem EndsIn.of_ok {P : Store → α → Store → Prop} {x : Eval α} {a : α} (h : EndsIn P x s)
    (hx : x s = .ok a s') : P s a s' := by
  rw [EndsIn, hx] at h
  exact h

theorem EndsIn.of_error {P : Store → α → Store → Prop} {x : Eval α} {e : RuntimeError}
    (h : EndsIn P x s) (hx : x s = .error e s') : s.KeepsReturns s' := by
  rw [EndsIn, hx] at h
  exact h

theorem EndsIn.imp {P Q : Store → α → Store → Prop} {x : Eval α} (h : EndsIn P x s)
    (hPQ : ∀ a s', P s a s' → Q s a s') : EndsIn Q x s := by
  cases hx : x s with
  | ok a s' =>
    rw [EndsIn, hx]
    exact hPQ a s' (h.of_ok hx)
  | error e s' =>
    rw [EndsIn, hx]
    exact h.of_error hx

theorem Left.after {scope : Ref .scope} {value : Value} {s'' : Store} (h : s.KeepsReturns s')
    (hleft : Left scope s' value s'') : Left scope s value s'' := by
  rcases hleft with hkeeps | ⟨hnull, returned, s₁, hkeeps, rfl⟩
  · exact .inl (h.trans hkeeps)
  · exact .inr ⟨hnull, returned, s₁, h.trans hkeeps, rfl⟩

/-- How a sequence ends is how its second part ends, if the first keeps the returns. -/
theorem EndsIn.bind {P : Store → β → Store → Prop} {x : Eval α} {f : α → Eval β}
    (hP : ∀ {s s' b s''}, s.KeepsReturns s' → P s' b s'' → P s b s'') (h : Keeps x s)
    (hf : ∀ a s', x s = .ok a s' → s.KeepsReturns s' → EndsIn P (f a) s') :
    EndsIn P (x >>= f) s := by
  cases hx : x s with
  | error e s' =>
    rw [EndsIn, bind_error hx]
    exact h.of_error hx
  | ok a s' =>
    have hs' := h.of_ok hx
    have hnext := hf a s' hx hs'
    rw [EndsIn, bind_ok hx]
    cases hfa : f a s' with
    | ok b s'' => exact hP hs' (hnext.of_ok hfa)
    | error e s'' => exact hs'.trans (hnext.of_error hfa)

theorem Keeps.bind {x : Eval α} {f : α → Eval β} (h : Keeps x s)
    (hf : ∀ a s', x s = .ok a s' → s.KeepsReturns s' → Keeps (f a) s') : Keeps (x >>= f) s :=
  EndsIn.bind (fun hs hs' => hs.trans hs') h hf

theorem Leaves.bind {scope : Ref .scope} {x : Eval α} {f : α → Eval Value} (h : Keeps x s)
    (hf : ∀ a s', x s = .ok a s' → s.KeepsReturns s' → Leaves scope (f a) s') :
    Leaves scope (x >>= f) s :=
  EndsIn.bind (fun hs hleft => hleft.after hs) h hf

theorem Keeps.leaves {scope : Ref .scope} {x : Eval Value} (h : Keeps x s) : Leaves scope x s :=
  h.imp fun _ _ hs' => .inl hs'

/-! ### Single steps -/

section Steps

variable (hs : s.WellFormed)
include hs

theorem keeps_pure (a : α) : Keeps (pure a) s :=
  KeepsReturns.refl hs

theorem keeps_fail (cause : RuntimeCause) (span : Span) : Keeps (fail cause span : Eval α) s :=
  KeepsReturns.refl hs

theorem keeps_lift (span : Span) (r : Except RuntimeCause α) : Keeps (lift span r) s := by
  cases r with
  | ok a => exact keeps_pure hs a
  | error cause => exact keeps_fail hs cause span

omit hs in
theorem keeps_modify {f : Store → Store} (h : s.KeepsReturns (f s)) :
    Keeps (modify f : Eval Unit) s :=
  h

omit hs in
theorem keeps_modifyGet {f : Store → α × Store} (h : s.KeepsReturns (f s).2) :
    Keeps (modifyGet f : Eval α) s :=
  h

omit hs in
theorem keeps_get_bind {f : Store → Eval α} (h : Keeps (f s) s) : Keeps (get >>= f) s :=
  h

theorem keeps_resolve (scope : Ref .scope) (ident : Ident) : Keeps (resolve scope ident) s := by
  refine keeps_get_bind ?_
  split
  · exact keeps_pure hs _
  · split
    · exact keeps_pure hs _
    · exact keeps_fail hs _ _

theorem keeps_assignName (scope : Ref .scope) (ident : Ident) (value : Value) :
    Keeps (assignName scope ident value) s := by
  refine keeps_get_bind ?_
  split
  · exact keeps_modify (Store.keepsReturns_define hs _ _ _)
  · exact keeps_fail hs _ _

theorem keeps_assignElement (target key value : Value) (span : Span) :
    Keeps (assignElement target key value span) s := by
  refine keeps_get_bind ((keeps_lift hs span _).bind fun place s' _ hs' => ?_)
  exact keeps_modify (Store.keepsReturns_write hs'.wellFormed place value)

theorem keeps_callBuiltin (b : Builtin) (arguments : List Value) (span : Span) :
    Keeps (callBuiltin b arguments span) s := by
  refine keeps_get_bind ((keeps_lift hs span _).bind fun result s' _ hs' => ?_)
  cases result with
  | value value => exact keeps_pure hs'.wellFormed value
  | newArray elements =>
    exact keeps_modifyGet (Store.keepsReturns_addArray hs'.wellFormed elements)

theorem keeps_insertPair (table : Table) (key value : Value) (span : Span) :
    Keeps (insertPair table key value span) s := by
  unfold insertPair
  split
  · exact keeps_pure hs _
  · exact keeps_fail hs _ _

theorem keeps_inner (kind : ScopeKind) {scope : Ref .scope} (hscope : s.HasScope scope) :
    Keeps (inner kind scope) s := by
  refine keeps_modifyGet (Store.keepsReturns_addScope hs kind ?_)
  rintro p hp
  obtain rfl := Option.some.inj hp
  exact hscope

omit hs in
theorem keepsReturns_bindParameters (hs : s.WellFormed) (scope : Ref .scope)
    (ps : List (String × Value)) :
    s.KeepsReturns (ps.foldl (fun store (name, value) => store.define scope name value) s) := by
  induction ps generalizing s with
  | nil => exact .refl hs
  | cons p ps ih =>
    have hstep := Store.keepsReturns_define hs scope p.1 p.2
    exact hstep.trans (ih hstep.wellFormed)

/-- A return is left pending for the scope, and the value is null. -/
theorem leaves_setReturn (scope : Ref .scope) (value : Value) :
    Leaves scope (do modify (·.setReturn scope value); return .null) s :=
  .inr ⟨rfl, value, s, .refl hs, rfl⟩

/-- What is left for a block is left for the scope around it. -/
theorem Leaves.of_block {scope : Ref .scope} (hscope : s.HasScope scope)
    {x : Ref .scope → Eval Value}
    (h : ∀ block s', s'.WellFormed → s'.HasScope block → Leaves block (x block) s') :
    Leaves scope (inner .block scope >>= x) s := by
  refine Leaves.bind (keeps_inner hs .block hscope) fun block s' hinner hs' => ?_
  have hblock : s'.scopes.get? block = some ⟨.block, some scope, ∅, none⟩ := by
    cases hinner
    show (s.addScope .block (some scope)).2.scopes.get? s.scopes.fresh = _
    rw [Store.get?_addScope, if_pos rfl]
  have hx := h block s' hs'.wellFormed ⟨_, hblock⟩
  unfold Leaves EndsIn at hx ⊢
  cases hxs : x block s' with
  | error e s'' =>
    rw [hxs] at hx
    exact hx
  | ok value s'' =>
    rw [hxs] at hx
    rcases hx with hkeeps | ⟨hnull, returned, s₁, hkeeps, rfl⟩
    · exact .inl hkeeps
    · -- the block is still a block inside `scope`, so the return goes to the boundary of `scope`
      obtain ⟨scope', hget, hkind, hparent⟩ := hkeeps.grows block _ hblock
      exact .inr ⟨hnull, returned, s₁, hkeeps,
        Store.setReturn_eq_of_block hkeeps.wellFormed hget hkind hparent returned⟩

omit hs in
/-- A list of nodes ends with the node that leaves a return pending, so at most one is left. -/
theorem Leaves.cons {scope : Ref .scope} (hscope : s.HasScope scope) {x : Eval Value}
    {rest : Eval Unit} (h : Leaves scope x s)
    (hrest : ∀ s', s'.WellFormed → s'.HasScope scope →
      Leaves scope (do rest; return .null) s') :
    Leaves scope
      (do
        (do
          let _ ← x
          if (← get).isReturning scope then return () else rest)
        return .null) s := by
  cases hx : x s with
  | error e s' =>
    rw [Leaves, EndsIn, bind_assoc, bind_error hx]
    exact h.of_error hx
  | ok value s' =>
    rw [Leaves, EndsIn, bind_assoc, bind_ok hx, bind_assoc, get_bind]
    rcases h.of_ok hx with hkeeps | ⟨-, returned, s₁, hkeeps, rfl⟩
    · cases s'.isReturning scope with
      | true => exact .inl hkeeps
      | false =>
        have hnext := hrest s' hkeeps.wellFormed (hkeeps.grows.hasScope hscope)
        rw [if_neg Bool.false_ne_true]
        cases hr : (rest >>= fun _ => pure Value.null : Eval Value) s' with
        | ok value s'' => exact (hnext.of_ok hr).after hkeeps
        | error e s'' => exact hkeeps.trans (hnext.of_error hr)
    · -- what was left pending is found from the same scope, so the list stops
      have hsome : (s₁.setReturn scope returned).isReturning scope = true := by
        rw [Store.isReturning, Store.pendingReturn?_setReturn hkeeps.wellFormed
          (hkeeps.grows.hasScope hscope)]
        rfl
      rw [hsome]
      exact .inr ⟨rfl, returned, s₁, hkeeps, rfl⟩

end Steps

/-! ### Trees -/

section Trees

variable {call : Caller}

/-- Calls keep the returns of every well-formed store. -/
def KeepsCalls (call : Caller) : Prop :=
  ∀ ref arguments span s, s.WellFormed → Keeps (call ref arguments span) s

/-- The steps of expressions keep the returns of every well-formed store with the scope in it. -/
theorem keeps_rules (scope : Ref .scope) :
    Rules scope fun _ x => ∀ s : Store, s.WellFormed → s.HasScope scope → Keeps x s where
  pure a _ hs _ := keeps_pure hs a
  bind hx hf s hs hscope := (hx s hs hscope).bind fun a s' _ hs' =>
    hf a s' hs'.wellFormed (hs'.grows.hasScope hscope)
  get_bind hf s hs hscope := keeps_get_bind (hf s s hs hscope)
  lift span r _ hs _ := keeps_lift hs span r
  resolve ident _ hs _ := keeps_resolve hs scope ident
  assignName ident value _ hs _ := keeps_assignName hs scope ident value
  assignElement target key value span _ hs _ := keeps_assignElement hs target key value span
  callBuiltin b arguments span _ hs _ := keeps_callBuiltin hs b arguments span
  insertPair table key value span _ hs _ := keeps_insertPair hs table key value span
  addArray elements _ hs _ := keeps_modifyGet (Store.keepsReturns_addArray hs elements)
  addMap table _ hs _ := keeps_modifyGet (Store.keepsReturns_addMap hs table)
  addClosure _ _ _ hs hscope := keeps_modifyGet (Store.keepsReturns_addClosure hs hscope)

/-- **Expressions keep the returns** if calls do. -/
theorem keeps_expression {scope : Ref .scope} (hcall : KeepsCalls call) (e : Expr) {s : Store}
    (hs : s.WellFormed) (hscope : s.HasScope scope) : Keeps (expression call scope e) s :=
  (keeps_rules scope).expression (fun ref arguments span s hs _ => hcall ref arguments span s hs)
    e s hs hscope

mutual

/-- **A node leaves one return pending at most**, if calls keep them. -/
theorem leaves_node (hcall : KeepsCalls call) {scope : Ref .scope} : ∀ (n : Node) {s : Store},
    s.WellFormed → s.HasScope scope → Leaves scope (node call scope n) s
  | .binding ident value _, s, hs, hscope => by
    rw [node]
    refine Leaves.bind (keeps_expression hcall value hs hscope) fun v s₁ _ hs₁ => ?_
    have hdefine := Store.keepsReturns_define hs₁.wellFormed scope ident.name v
    exact Leaves.bind (keeps_modify hdefine) fun _ s₂ _ hs₂ => (keeps_pure hs₂.wellFormed _).leaves
  | .returning none _, s, hs, _ => by
    rw [node]
    exact leaves_setReturn hs scope .null
  | .returning (some value) _, s, hs, hscope => by
    rw [node]
    exact Leaves.bind (keeps_expression hcall value hs hscope)
      fun v s₁ _ hs₁ => leaves_setReturn hs₁.wellFormed scope v
  | .conditional condition consequence none _, s, hs, hscope => by
    rw [node]
    refine Leaves.bind (keeps_expression hcall condition hs hscope) fun c s₁ _ hs₁ => ?_
    dsimp only
    split
    · exact Leaves.of_block hs₁.wellFormed (hs₁.grows.hasScope hscope)
        fun _ _ hs₂ hblock => leaves_block hcall consequence hs₂ hblock
    · exact (keeps_pure hs₁.wellFormed _).leaves
  | .conditional condition consequence (some alternative) _, s, hs, hscope => by
    rw [node]
    refine Leaves.bind (keeps_expression hcall condition hs hscope) fun c s₁ _ hs₁ => ?_
    have hscope₁ := hs₁.grows.hasScope hscope
    dsimp only
    split
    · exact Leaves.of_block hs₁.wellFormed hscope₁
        fun _ _ hs₂ hblock => leaves_block hcall consequence hs₂ hblock
    · exact Leaves.of_block hs₁.wellFormed hscope₁
        fun _ _ hs₂ hblock => leaves_block hcall alternative hs₂ hblock
  | .expression value, s, hs, hscope => by
    rw [node]
    exact (keeps_expression hcall value hs hscope).leaves
termination_by structural n => n

/-- **So does a list of nodes**, which ends with the first node that does. -/
theorem leaves_nodes (hcall : KeepsCalls call) {scope : Ref .scope} : ∀ (ns : List Node)
    {s : Store}, s.WellFormed → s.HasScope scope →
    Leaves scope (do nodes call scope ns; return .null) s
  | [], s, hs, _ => by
    rw [nodes]
    exact Keeps.leaves (keeps_pure hs _)
  | n :: rest, s, hs, hscope => by
    rw [nodes]
    exact Leaves.cons hscope (leaves_node hcall n hs hscope)
      fun _ hs' hscope' => leaves_nodes hcall rest hs' hscope'
termination_by structural ns => ns

theorem leaves_block (hcall : KeepsCalls call) {scope : Ref .scope} : ∀ (b : Block) {s : Store},
    s.WellFormed → s.HasScope scope → Leaves scope (do block call scope b; return .null) s
  | ⟨ns, _⟩, s, hs, hscope => by
    rw [block]
    exact leaves_nodes hcall ns hs hscope
termination_by structural b => b

end

end Trees

/-! ### Taking what is left -/

section Taking

variable {scope : Ref .scope}

theorem takeReturn_of_none (hnone : s.pendingReturn? scope = none) :
    takeReturn scope s = .ok none s := by
  rw [takeReturn, get_bind, hnone]
  rfl

/-- What is taken is what was left, and nothing of it stays. -/
theorem takeReturn_setReturn (hs : s.WellFormed) (hscope : s.HasScope scope)
    (hnone : s.pendingReturn? scope = none) (value : Value) :
    takeReturn scope (s.setReturn scope value) = .ok (some value) s := by
  rw [takeReturn, get_bind, Store.pendingReturn?_setReturn hs hscope]
  show EStateM.Result.ok (some value) ((s.setReturn scope value).clearReturn scope) = _
  rw [Store.clearReturn_setReturn_of_none hs hscope hnone]

/-- How a node ends where nothing is pending for its scope: it fails, it gives a value, or it is
null and leaves one return. But for that return nothing is pending for the scope afterwards. -/
inductive Ending (scope : Ref .scope) (s : Store) : EStateM.Result RuntimeError Store Value → Prop
  | failed {error s'} (hkeeps : s.KeepsReturns s') (hnone : s'.pendingReturn? scope = none) :
    Ending scope s (.error error s')
  | normal {value s'} (hkeeps : s.KeepsReturns s') (hnone : s'.pendingReturn? scope = none) :
    Ending scope s (.ok value s')
  | returned {value s'} (hkeeps : s.KeepsReturns s') (hnone : s'.pendingReturn? scope = none) :
    Ending scope s (.ok .null (s'.setReturn scope value))

theorem Leaves.ending (hs : s.WellFormed) (hscope : s.HasScope scope)
    (hnone : s.pendingReturn? scope = none) {x : Eval Value} (h : Leaves scope x s) :
    Ending scope s (x s) := by
  have hstill : ∀ {s'}, s.KeepsReturns s' → s'.pendingReturn? scope = none := fun hkeeps =>
    (hkeeps.pendingReturn?_eq hs hscope).trans hnone
  cases hx : x s with
  | error e s' => exact .failed (h.of_error hx) (hstill (h.of_error hx))
  | ok value s' =>
    rcases h.of_ok hx with hkeeps | ⟨rfl, returned, s₁, hkeeps, rfl⟩
    · exact .normal hkeeps (hstill hkeeps)
    · exact .returned hkeeps (hstill hkeeps)

/-- A body whose return is taken keeps the returns. -/
theorem Leaves.keeps_result (hs : s.WellFormed) (hscope : s.HasScope scope)
    (hnone : s.pendingReturn? scope = none) {x : Eval Unit}
    (h : Leaves scope (do x; return .null) s) :
    Keeps (do x; return (← takeReturn scope).getD .null) s := by
  have hending := h.ending hs hscope hnone
  cases hx : x s with
  | error e s' =>
    rw [bind_error hx] at hending
    rw [Keeps, EndsIn, bind_error hx]
    cases hending
    assumption
  | ok u s' =>
    rw [bind_ok hx] at hending
    rw [Keeps, EndsIn, bind_ok hx]
    -- the value of the body is always null, so only the store tells how it ended
    generalize hresult : (pure Value.null : Eval Value) s' = result at hending
    cases hending with
    | failed => cases hresult
    | normal hkeeps hnone' =>
      cases hresult
      rw [bind_ok (takeReturn_of_none hnone')]
      exact hkeeps
    | returned hkeeps hnone' =>
      cases hresult
      rw [bind_ok (takeReturn_setReturn hkeeps.wellFormed (hkeeps.grows.hasScope hscope) hnone' _)]
      exact hkeeps

end Taking

/-! ### Calls -/

/-- The scope that a function was made in exists. -/
theorem ends_callee (hs : s.WellFormed) (ref : Ref .closure) (arguments : List Value)
    (span : Span) :
    EndsIn (fun s closure s' => s.KeepsReturns s' ∧ s'.HasScope closure.scope)
      (callee ref arguments span) s := by
  rcases callee_cases s ref arguments span with
    ⟨closure, hget, -, hcallee⟩ | ⟨cause, -, hcallee⟩
  · rw [EndsIn, hcallee]
    exact ⟨.refl hs, hs.closure_scope hget⟩
  · rw [EndsIn, hcallee]
    exact KeepsReturns.refl hs

/-- The scope of a call exists, and nothing is pending for it. -/
theorem ends_enter (hs : s.WellFormed) {closure : Closure} (hscope : s.HasScope closure.scope)
    (arguments : List Value) :
    EndsIn (fun s scope s' => s.KeepsReturns s' ∧ s'.HasScope scope ∧
      s'.pendingReturn? scope = none) (enter closure arguments) s := by
  have hinner := keeps_inner hs .function hscope
  have hbind := keepsReturns_bindParameters hinner.wellFormed s.scopes.fresh
    (closure.parameters.zip arguments)
  have hnew : (s.addScope .function (some closure.scope)).2.scopes.get? s.scopes.fresh =
      some ⟨.function, some closure.scope, ∅, none⟩ := by
    rw [Store.get?_addScope, if_pos rfl]
  refine ⟨hinner.trans hbind, hbind.grows.hasScope ⟨_, hnew⟩, ?_⟩
  -- a function's scope keeps its own returns, and a new one has none
  calc _ = (s.addScope .function (some closure.scope)).2.pendingReturn? s.scopes.fresh :=
        hbind.pendingReturn?_eq hinner.wellFormed ⟨_, hnew⟩
    _ = none := by
        rw [Store.pendingReturn?, Store.boundary_of_not_passes hnew rfl, hnew]
        rfl

/-- **Calls keep the returns**, however many may become active. -/
theorem keeps_callWithin : ∀ n, KeepsCalls (callWithin n)
  -- by induction on the calls left: a body makes its own calls with one fewer
  | 0, ref, arguments, span, s, hs => by
    rw [callWithin]
    exact Keeps.bind ((ends_callee hs ref arguments span).imp fun _ _ h => h.1)
      fun _ s' _ hs' => keeps_fail hs'.wellFormed _ _
  | n + 1, ref, arguments, span, s, hs => by
    rw [callWithin]
    have hcallee := ends_callee hs ref arguments span
    refine Keeps.bind (hcallee.imp fun _ _ h => h.1) fun closure s₁ hx₁ hs₁ => ?_
    have henter := ends_enter hs₁.wellFormed (hcallee.of_ok hx₁).2 arguments
    refine Keeps.bind (henter.imp fun _ _ h => h.1) fun scope s₂ hx₂ hs₂ => ?_
    obtain ⟨-, hscope, hnone⟩ := henter.of_ok hx₂
    have hbody := leaves_block (keeps_callWithin n) closure.body hs₂.wellFormed hscope
    exact hbody.keeps_result hs₂.wellFormed hscope hnone

end Eval

end Script
