import Script.Proofs.Eval.Confinement
import Script.Proofs.Eval.Rules
import Script.Proofs.Sequence
import Script.Proofs.Store.Outlines

/-!
# Scopes are lexically stable

What names a scope binds can be told from the text: they are the names of the `let`s that have been
evaluated in the scope itself. An expression adds none to any scope that was there before, whatever
functions it calls and whether or not it fails; nor does a node other than a `let`, for the `let`s
in a block or a body bind in a scope that was made for it.

No assumption is made about the store. It may hold any tree of scopes and any functions, and a
function may be called in whatever scope it was made.

* `Eval.stable_expression`, `Eval.stable_node`: trees, if calls keep the outlines of scopes;
* `Eval.stable_callWithin`: calls, by induction on how many may still become active;
* `Eval.lexically_stable`: expressions, nodes, and nodes of a program.
-/

namespace Script

namespace Eval

open Store (KeepsOutlines KeepsOutlinesBut Binds)

variable {α β : Type}

/-! ### Evaluations and the scopes they find -/

/-- An evaluation keeps the outlines of all scopes, whether it succeeds or fails. -/
def Stable (x : Eval α) : Prop :=
  ∀ s : Store, s.KeepsOutlines (storeAfter (x s))

/-- An evaluation keeps the outlines of all scopes but one. -/
def StableBut (scope : Ref .scope) (x : Eval α) : Prop :=
  ∀ s, KeepsOutlinesBut scope s (storeAfter (x s))

/-- A sequence is related to the store that it begins in like its parts, if the relation is
transitive. -/
theorem storeAfter_bind {R : Store → Store → Prop} (htrans : ∀ {a b c}, R a b → R b c → R a c)
    {x : Eval α} {f : α → Eval β} {s : Store} (h : R s (storeAfter (x s)))
    (hf : ∀ a s', R s' (storeAfter (f a s'))) : R s (storeAfter ((x >>= f) s)) := by
  cases hx : x s with
  | ok a s' =>
    rw [hx] at h
    rw [bind_ok hx]
    exact htrans h (hf a s')
  | error e s' =>
    rw [hx] at h
    rw [bind_error hx]
    exact h

theorem Stable.bind {x : Eval α} {f : α → Eval β} (hx : Stable x) (hf : ∀ a, Stable (f a)) :
    Stable (x >>= f) :=
  fun s => storeAfter_bind (R := KeepsOutlines) KeepsOutlines.trans (hx s) hf

theorem StableBut.bind {scope : Ref .scope} {x : Eval α} {f : α → Eval β}
    (hx : StableBut scope x) (hf : ∀ a, StableBut scope (f a)) : StableBut scope (x >>= f) :=
  fun s => storeAfter_bind (R := KeepsOutlinesBut scope) KeepsOutlinesBut.trans (hx s) hf

theorem Stable.but {x : Eval α} (h : Stable x) (scope : Ref .scope) : StableBut scope x :=
  fun s => (h s).but scope

/-! ### Single steps -/

theorem stable_pure (a : α) : Stable (pure a : Eval α) :=
  fun s => .refl s

theorem stable_fail (cause : RuntimeCause) (span : Span) : Stable (fail cause span : Eval α) :=
  fun s => .refl s

theorem stable_lift (span : Span) (r : Except RuntimeCause α) : Stable (lift span r) := by
  cases r with
  | ok a => exact stable_pure a
  | error cause => exact stable_fail cause span

theorem stable_get_bind {f : Store → Eval α} (h : ∀ s, Stable (f s)) : Stable (get >>= f) :=
  fun s => h s s

/-- A new object that is no scope. -/
theorem stable_modifyGet {f : Store → α × Store} (h : ∀ s, (f s).2.scopes = s.scopes) :
    Stable (modifyGet f : Eval α) :=
  fun s => Store.keepsOutlines_of_eq (h s)

theorem stable_resolve (scope : Ref .scope) (ident : Ident) : Stable (resolve scope ident) := by
  refine stable_get_bind fun s => ?_
  split
  · exact stable_pure _
  · split
    · exact stable_pure _
    · exact stable_fail _ _

/-- An assignment binds no name that was not bound before. -/
theorem stable_assignName (scope : Ref .scope) (ident : Ident) (value : Value) :
    Stable (assignName scope ident value) := by
  intro s
  rw [assignName, get_bind]
  cases howner : s.owner? scope ident.name with
  | some owner => exact Store.keepsOutlines_assign howner value
  | none => exact .refl s

theorem stable_assignElement (target key value : Value) (span : Span) :
    Stable (assignElement target key value span) := by
  refine stable_get_bind fun s => (stable_lift span _).bind fun place => ?_
  exact fun s' => Store.keepsOutlines_write place value

theorem stable_callBuiltin (b : Builtin) (arguments : List Value) (span : Span) :
    Stable (callBuiltin b arguments span) := by
  refine stable_get_bind fun s => (stable_lift span _).bind fun result => ?_
  cases result with
  | value value => exact stable_pure value
  | newArray elements => exact stable_modifyGet fun _ => rfl

theorem stable_insertPair (table : Table) (key value : Value) (span : Span) :
    Stable (insertPair table key value span) := by
  unfold insertPair
  split
  · exact stable_pure _
  · exact stable_fail _ _

/-- Taking a return never fails. -/
theorem exists_takeReturn (scope : Ref .scope) (s : Store) :
    ∃ returned s', takeReturn scope s = .ok returned s' ∧ s.KeepsOutlines s' := by
  rw [takeReturn, get_bind]
  cases s.pendingReturn? scope with
  | some value => exact ⟨_, _, rfl, Store.keepsOutlines_putReturn scope none⟩
  | none => exact ⟨none, s, rfl, .refl s⟩

theorem stable_takeReturn (scope : Ref .scope) : Stable (takeReturn scope) := by
  intro s
  obtain ⟨returned, s', htake, hkeeps⟩ := exists_takeReturn scope s
  rw [htake]
  exact hkeeps

theorem stable_setReturn (scope : Ref .scope) (value : Value) :
    Stable (do modify (·.setReturn scope value); return .null : Eval Value) :=
  fun _ => Store.keepsOutlines_putReturn scope (some value)

theorem stable_callee (ref : Ref .closure) (arguments : List Value) (span : Span) :
    Stable (callee ref arguments span) := by
  refine stable_get_bind fun s => ?_
  split
  · exact stable_fail _ _
  · split
    · exact stable_pure _
    · exact stable_fail _ _

/-! ### New scopes -/

/-- What binds names in a new scope alone changes none of the scopes that were there before. -/
theorem stable_inner {x : Ref .scope → Eval α} (kind : ScopeKind) (scope : Ref .scope)
    (h : ∀ new, StableBut new (x new)) : Stable (inner kind scope >>= x) := by
  intro s
  have hadd : s.KeepsOutlines (s.addScope kind (some scope)).2 :=
    Store.keepsOutlines_addScope kind (some scope)
  exact (h s.scopes.fresh (s.addScope kind (some scope)).2).of_new hadd
    fun hs => Store.ne_fresh_of_hasScope hs rfl

theorem stableBut_bindParameters (scope : Ref .scope) (ps : List (String × Value)) :
    StableBut scope (modify fun store =>
      ps.foldl (fun store (name, value) => store.define scope name value) store : Eval Unit) := by
  intro s
  show KeepsOutlinesBut scope s
    (ps.foldl (fun store (name, value) => store.define scope name value) s)
  induction ps generalizing s with
  | nil => exact (KeepsOutlines.refl s).but scope
  | cons p ps ih => exact (Store.binds_define scope p.1 p.2).but.trans (ih _)

theorem stable_enter {x : Ref .scope → Eval α} (closure : Closure) (arguments : List Value)
    (h : ∀ new, StableBut new (x new)) : Stable (enter closure arguments >>= x) := by
  have hassoc : (enter closure arguments >>= x) = (inner .function closure.scope >>= fun new => do
      modify fun store => (closure.parameters.zip arguments).foldl
        (fun store (name, value) => store.define new name value) store
      x new) := by
    rw [enter]
    simp only [bind_assoc, pure_bind]
  rw [hassoc]
  exact stable_inner .function closure.scope fun new =>
    (stableBut_bindParameters new _).bind fun _ => h new

/-! ### Trees -/

section Trees

variable {call : Caller}

/-- Calls keep the outlines of all scopes. -/
def StableCalls (call : Caller) : Prop :=
  ∀ ref arguments span, Stable (call ref arguments span)

/-- The steps of expressions keep the outlines of all scopes. -/
theorem stable_rules (scope : Ref .scope) : Rules scope fun _ x => Stable x where
  pure := stable_pure
  bind := Stable.bind
  get_bind := stable_get_bind
  lift := stable_lift
  resolve := stable_resolve scope
  assignName := stable_assignName scope
  assignElement := stable_assignElement
  callBuiltin := stable_callBuiltin
  insertPair := stable_insertPair
  addArray _ := stable_modifyGet fun _ => rfl
  addMap _ := stable_modifyGet fun _ => rfl
  addClosure _ _ := stable_modifyGet fun _ => rfl

/-- **Expressions keep the outlines of all scopes** if calls do. -/
theorem stable_expression (hcall : StableCalls call) (scope : Ref .scope) (e : Expr) :
    Stable (expression call scope e) :=
  (stable_rules scope).expression hcall e

/-- A `let` binds its name if its value does not fail. -/
theorem binds_of_binding (hcall : StableCalls call) (scope : Ref .scope) (ident : Ident)
    (value : Expr) (span : Span) (s : Store) :
    match node call scope (.binding ident value span) s with
    | .ok _ after => Binds scope ident.name s after
    | .error _ after => s.KeepsOutlines after := by
  have hvalue := stable_expression hcall scope value s
  rw [node]
  cases hx : expression call scope value s with
  | ok v s' =>
    rw [hx] at hvalue
    rw [bind_ok hx]
    exact hvalue.binds (Store.binds_define scope ident.name v)
  | error e s' =>
    rw [hx] at hvalue
    rw [bind_error hx]
    exact hvalue

mutual

/-- **Nodes other than a `let` keep the outlines of all scopes**, those in which a block is
evaluated being new. -/
theorem stable_node (hcall : StableCalls call) (scope : Ref .scope) : ∀ n : Node,
    (∀ ident value span, n ≠ .binding ident value span) → Stable (node call scope n)
  | .binding ident value span, h => absurd rfl (h ident value span)
  | .returning none _, _ => by
    rw [node]
    exact stable_setReturn scope .null
  | .returning (some value) _, _ => by
    rw [node]
    exact (stable_expression hcall scope value).bind fun v => stable_setReturn scope v
  | .conditional condition consequence none _, _ => by
    rw [node]
    refine (stable_expression hcall scope condition).bind fun c => ?_
    dsimp only
    split
    · exact stable_inner .block scope fun new =>
        (stableBut_block hcall new consequence).bind fun _ => (stable_pure _).but new
    · exact stable_pure _
  | .conditional condition consequence (some alternative) _, _ => by
    rw [node]
    refine (stable_expression hcall scope condition).bind fun c => ?_
    dsimp only
    split
    · exact stable_inner .block scope fun new =>
        (stableBut_block hcall new consequence).bind fun _ => (stable_pure _).but new
    · exact stable_inner .block scope fun new =>
        (stableBut_block hcall new alternative).bind fun _ => (stable_pure _).but new
  | .expression value, _ => by
    rw [node]
    exact stable_expression hcall scope value
termination_by structural n => n

/-- Nodes that are evaluated in a scope keep the outlines of all others. -/
theorem stableBut_nodes (hcall : StableCalls call) (scope : Ref .scope) : ∀ ns : List Node,
    StableBut scope (nodes call scope ns)
  | [] => by
    rw [nodes]
    exact (stable_pure _).but scope
  | n :: rest => by
    -- a `let` changes the outline of its own scope alone, other nodes that of none
    have hnode : StableBut scope (node call scope n) := by
      cases n with
      | binding ident value span =>
        intro s
        have hbinds := binds_of_binding hcall scope ident value span s
        cases hx : node call scope (.binding ident value span) s with
        | ok v s' =>
          rw [hx] at hbinds
          exact hbinds.but
        | error e s' =>
          rw [hx] at hbinds
          exact hbinds.but scope
      | _ => exact (stable_node hcall scope _ (by simp)).but scope
    rw [nodes]
    refine hnode.bind fun _ s => ?_
    rw [get_bind]
    split
    · exact (stable_pure _).but scope s
    · exact stableBut_nodes hcall scope rest s
termination_by structural ns => ns

theorem stableBut_block (hcall : StableCalls call) (scope : Ref .scope) : ∀ b : Block,
    StableBut scope (block call scope b)
  | ⟨ns, _⟩ => by
    rw [block]
    exact stableBut_nodes hcall scope ns
termination_by structural b => b

end

end Trees

/-! ### Calls -/

/-- **Calls keep the outlines of all scopes**, however many may become active. -/
theorem stable_callWithin : ∀ n, StableCalls (callWithin n)
  -- by induction on the calls left: a body makes its own calls with one fewer
  | 0, ref, arguments, span => by
    rw [callWithin]
    exact (stable_callee ref arguments span).bind fun _ => stable_fail _ _
  | n + 1, ref, arguments, span => by
    rw [callWithin]
    refine (stable_callee ref arguments span).bind fun closure => ?_
    refine stable_enter closure arguments fun new => ?_
    refine (stableBut_block (stable_callWithin n) new closure.body).bind fun _ => ?_
    exact ((stable_takeReturn new).bind fun _ => stable_pure _).but new

/-! ### Expressions and nodes -/

/-- What a node does to the outlines of scopes: a `let` that succeeds binds its name in the scope
of the node. Apart from that every outline is kept. -/
def StableButLet (scope : Ref .scope) (n : Node) (before : Store)
    (result : EStateM.Result RuntimeError Store Value) : Prop :=
  match n, result with
  | .binding ident _ _, .ok _ after => Binds scope ident.name before after
  | _, result => before.KeepsOutlines (storeAfter result)

theorem stableButLet_node {call : Caller} (hcall : StableCalls call) (scope : Ref .scope) (n : Node)
    (before : Store) : StableButLet scope n before (node call scope n before) := by
  cases n with
  | binding ident value span =>
    have hbinds := binds_of_binding hcall scope ident value span before
    cases hx : node call scope (.binding ident value span) before with
    | ok v after =>
      rw [hx] at hbinds
      exact hbinds
    | error e after =>
      rw [hx] at hbinds
      exact hbinds
  | _ => exact stable_node hcall scope _ (by simp) before

theorem StableButLet.andThen {scope : Ref .scope} {n : Node} {before s after : Store}
    {value value' : Value} (h : StableButLet scope n before (.ok value s))
    (hafter : s.KeepsOutlines after) : StableButLet scope n before (.ok value' after) := by
  cases n with
  | binding ident value span => exact Binds.keepsOutlines h hafter
  | _ => exact KeepsOutlines.trans h hafter

/-- Taking the return that a node leaves binds no name. -/
theorem stableButLet_topLevel {call : Caller} (hcall : StableCalls call) (scope : Ref .scope)
    (last : Value) (n : Node) (before : Store) :
    StableButLet scope n before (topLevel call scope last [n] before) := by
  have hnode := stableButLet_node hcall scope n before
  simp only [topLevel]
  cases hx : node call scope n before with
  | error e s =>
    rw [hx] at hnode
    rw [bind_error hx]
    exact hnode
  | ok value s =>
    rw [hx] at hnode
    obtain ⟨returned, after, htake, hkeeps⟩ := exists_takeReturn scope s
    rw [bind_ok hx, bind_ok htake]
    cases returned <;> exact hnode.andThen hkeeps

/-- **Scopes are lexically stable.** An expression keeps the kind, the scope around and the names of
every scope that there was before, also where it fails; so does every node of a tree or of a
program, but that a `let` whose value does not fail binds its name in the scope of the node. -/
theorem lexically_stable (calls : Nat) (scope : Ref .scope) (before : Store) :
    (∀ e, before.KeepsOutlines (storeAfter (expression (callWithin calls) scope e before))) ∧
      (∀ n, StableButLet scope n before (node (callWithin calls) scope n before)) ∧
      ∀ last n, StableButLet scope n before (topLevel (callWithin calls) scope last [n] before) :=
  ⟨fun e => stable_expression (stable_callWithin calls) scope e before,
    fun n => stableButLet_node (stable_callWithin calls) scope n before,
    fun last n => stableButLet_topLevel (stable_callWithin calls) scope last n before⟩

end Eval

end Script
