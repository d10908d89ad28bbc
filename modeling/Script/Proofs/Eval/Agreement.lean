import Script.Eval
import Script.Proofs.Sequence
import Script.Proofs.Store.Returns

/-!
# Evaluations that agree on stores at rest

Two evaluations *agree* in a store if they do the same there and leave the store at rest. Agreement
goes through the steps that evaluation is made of (`Agree.bind` and the lemmas on single steps), and
hence through all expressions:

* `agree_expression`: if two ways to call functions agree in every store at rest, so do the
  evaluations of an expression with the one and with the other.
-/

namespace Script

namespace Eval

open Store (AtRest Settles HasScope)

variable {α β : Type}

/-- An evaluation keeps a store at rest: whether it succeeds or fails, the store has settled. -/
def KeepsRest (x : Eval α) (s : Store) : Prop :=
  match x s with
  | .ok _ s' => s.Settles s'
  | .error _ s' => s.Settles s'

/-- Two evaluations agree in a store if they give the same result and the same store, and keep
the store at rest. -/
def Agree (x y : Eval α) (s : Store) : Prop :=
  x s = y s ∧ KeepsRest y s

/-! ### Single steps -/

section Steps

variable {s : Store}

theorem KeepsRest.of_ok {x : Eval α} {a : α} {s' : Store} (h : KeepsRest x s)
    (hx : x s = .ok a s') : s.Settles s' := by
  rw [KeepsRest, hx] at h
  exact h

theorem KeepsRest.of_error {x : Eval α} {e : RuntimeError} {s' : Store} (h : KeepsRest x s)
    (hx : x s = .error e s') : s.Settles s' := by
  rw [KeepsRest, hx] at h
  exact h

theorem KeepsRest.bind {x : Eval α} {f : α → Eval β} (h : KeepsRest x s)
    (hf : ∀ a s', x s = .ok a s' → s.Settles s' → KeepsRest (f a) s') :
    KeepsRest (x >>= f) s := by
  cases hx : x s with
  | error e s' =>
    rw [KeepsRest, bind_error hx]
    exact h.of_error hx
  | ok a s' =>
    -- settled by `x`, and then once more by the step after it
    have hs' := h.of_ok hx
    have hnext := hf a s' hx hs'
    rw [KeepsRest, bind_ok hx]
    cases hfa : f a s' with
    | ok b s'' => exact hs'.trans (hnext.of_ok hfa)
    | error e s'' => exact hs'.trans (hnext.of_error hfa)

/-- **Agreement goes through one step after another.** -/
theorem Agree.bind {x y : Eval α} {f g : α → Eval β} (h : Agree x y s)
    (hf : ∀ a s', y s = .ok a s' → s.Settles s' → Agree (f a) (g a) s') :
    Agree (x >>= f) (y >>= g) s := by
  obtain ⟨heq, hrest⟩ := h
  refine ⟨?_, hrest.bind fun a s' hy hs' => (hf a s' hy hs').2⟩
  cases hy : y s with
  | error e s' => rw [bind_error (heq.trans hy), bind_error hy]
  | ok a s' =>
    rw [bind_ok (heq.trans hy), bind_ok hy]
    exact (hf a s' hy (hrest.of_ok hy)).1

theorem agree_pure (hs : s.AtRest) (a : α) : Agree (pure a) (pure a) s :=
  ⟨rfl, Settles.refl hs⟩

theorem agree_fail (hs : s.AtRest) (cause : RuntimeCause) (span : Span) :
    Agree (fail cause span : Eval α) (fail cause span) s :=
  ⟨rfl, Settles.refl hs⟩

theorem agree_lift (hs : s.AtRest) (span : Span) (r : Except RuntimeCause α) :
    Agree (lift span r) (lift span r) s := by
  cases r with
  | ok a => exact agree_pure hs a
  | error cause => exact agree_fail hs cause span

theorem agree_modifyGet {f : Store → α × Store} (h : s.Settles (f s).2) :
    Agree (modifyGet f : Eval α) (modifyGet f) s :=
  ⟨rfl, h⟩

theorem agree_modify {f : Store → Store} (h : s.Settles (f s)) :
    Agree (modify f : Eval Unit) (modify f) s :=
  ⟨rfl, h⟩

theorem agree_get_bind {f g : Store → Eval α} (h : Agree (f s) (g s) s) :
    Agree (get >>= f) (get >>= g) s :=
  h

theorem agree_resolve (hs : s.AtRest) (scope : Ref .scope) (ident : Ident) :
    Agree (resolve scope ident) (resolve scope ident) s := by
  refine agree_get_bind ?_
  split
  · exact agree_pure hs _
  · split
    · exact agree_pure hs _
    · exact agree_fail hs _ _

theorem agree_assignName (hs : s.AtRest) (scope : Ref .scope) (ident : Ident) (value : Value) :
    Agree (assignName scope ident value) (assignName scope ident value) s := by
  refine agree_get_bind ?_
  split
  · exact agree_modify (Store.settles_define hs _ _ _)
  · exact agree_fail hs _ _

theorem agree_assignElement (hs : s.AtRest) (target key value : Value) (span : Span) :
    Agree (assignElement target key value span) (assignElement target key value span) s := by
  refine agree_get_bind ((agree_lift hs span _).bind fun place s' _ hs' => ?_)
  exact agree_modify (Store.settles_write hs'.atRest place value)

theorem agree_callBuiltin (hs : s.AtRest) (b : Builtin) (arguments : List Value) (span : Span) :
    Agree (callBuiltin b arguments span) (callBuiltin b arguments span) s := by
  refine agree_get_bind ((agree_lift hs span _).bind fun result s' _ hs' => ?_)
  cases result with
  | value value => exact agree_pure hs'.atRest value
  | newArray elements => exact agree_modifyGet (Store.settles_addArray hs'.atRest elements)

theorem agree_insertPair (hs : s.AtRest) (table : Table) (key value : Value) (span : Span) :
    Agree (insertPair table key value span) (insertPair table key value span) s := by
  unfold insertPair
  split
  · exact agree_pure hs _
  · exact agree_fail hs _ _

theorem agree_inner (hs : s.AtRest) (kind : ScopeKind) {scope : Ref .scope}
    (hscope : s.HasScope scope) : Agree (inner kind scope) (inner kind scope) s := by
  refine agree_modifyGet (Store.settles_addScope hs kind ?_)
  rintro p hp
  obtain rfl := Option.some.inj hp
  exact hscope

theorem settles_bindParameters (hs : s.AtRest) (scope : Ref .scope) (ps : List (String × Value)) :
    s.Settles (ps.foldl (fun store (name, value) => store.define scope name value) s) := by
  induction ps generalizing s with
  | nil => exact .refl hs
  | cons p ps ih =>
    have hstep := Store.settles_define hs scope p.1 p.2
    exact hstep.trans (ih hstep.atRest)

theorem agree_enter (hs : s.AtRest) {closure : Closure} (hscope : s.HasScope closure.scope)
    (arguments : List Value) : Agree (enter closure arguments) (enter closure arguments) s := by
  -- the scope of the body, then its parameters
  refine (agree_inner hs .function hscope).bind fun scope s' _ hs' => ?_
  refine (agree_modify (settles_bindParameters hs'.atRest scope _)).bind fun _ s'' _ hs'' => ?_
  exact agree_pure hs''.atRest scope

theorem agree_callee (hs : s.AtRest) (ref : Ref .closure) (arguments : List Value) (span : Span) :
    Agree (callee ref arguments span) (callee ref arguments span) s := by
  refine agree_get_bind ?_
  split
  · exact agree_fail hs _ _
  · split
    · exact agree_pure hs _
    · exact agree_fail hs _ _

end Steps

/-! ### Expressions -/

/-- Two ways to call functions agree if they do in every store at rest. -/
def CallersAgree (call call' : Caller) : Prop :=
  ∀ ref arguments span s, s.AtRest → Agree (call ref arguments span) (call' ref arguments span) s

section Expressions

variable {call call' : Caller} {scope : Ref .scope}

theorem agree_callValue (hcall : CallersAgree call call') {s : Store} (hs : s.AtRest)
    (function : Value) (arguments : List Value) (span callee : Span) :
    Agree (callValue call function arguments span callee)
      (callValue call' function arguments span callee) s := by
  cases function with
  | function ref => exact hcall ref arguments span s hs
  | builtin b => exact agree_callBuiltin hs b arguments span
  | _ => exact agree_fail hs _ _

mutual

/-- **Expressions agree if calls do.** -/
theorem agree_expression (hcall : CallersAgree call call') : ∀ (e : Expr) {s : Store}, s.AtRest →
    s.HasScope scope → Agree (expression call scope e) (expression call' scope e) s
  | .name ident, s, hs, _ => by
    rw [expression, expression]
    exact agree_resolve hs scope ident
  | .integer value _, s, hs, _ => by
    rw [expression, expression]
    exact agree_pure hs _
  | .boolean value _, s, hs, _ => by
    rw [expression, expression]
    exact agree_pure hs _
  | .string value _, s, hs, _ => by
    rw [expression, expression]
    exact agree_pure hs _
  | .array elements _, s, hs, hscope => by
    rw [expression, expression]
    refine (agree_expressions hcall elements hs hscope).bind fun values s' _ hs' => ?_
    exact agree_modifyGet (Store.settles_addArray hs'.atRest values)
  | .map entries _, s, hs, hscope => by
    rw [expression, expression]
    refine (agree_pairs hcall entries ∅ hs hscope).bind fun table s' _ hs' => ?_
    exact agree_modifyGet (Store.settles_addMap hs'.atRest table)
  | .unary op operand span, s, hs, hscope => by
    rw [expression, expression]
    refine (agree_expression hcall operand hs hscope).bind fun value s' _ hs' => ?_
    exact agree_lift hs'.atRest span _
  | .binary op left right span, s, hs, hscope => by
    rw [expression, expression]
    refine (agree_expression hcall left hs hscope).bind fun a s₁ _ hs₁ => ?_
    have hscope₁ := hs₁.grows.hasScope hscope
    refine (agree_expression hcall right hs₁.atRest hscope₁).bind fun b s₂ _ hs₂ => ?_
    exact agree_lift hs₂.atRest span _
  | .assign target value span, s, hs, hscope => by
    -- the value comes first, whatever it is assigned to
    cases target with
    | name ident =>
      rw [expression, expression]
      refine (agree_expression hcall value hs hscope).bind fun v s₁ _ hs₁ => ?_
      refine (agree_assignName hs₁.atRest scope ident v).bind fun _ s₂ _ hs₂ => ?_
      exact agree_pure hs₂.atRest v
    | index target key span =>
      rw [expression, expression]
      refine (agree_expression hcall value hs hscope).bind fun v s₁ _ hs₁ => ?_
      have hscope₁ := hs₁.grows.hasScope hscope
      refine (agree_expression hcall target hs₁.atRest hscope₁).bind fun t s₂ _ hs₂ => ?_
      have hscope₂ := hs₂.grows.hasScope hscope₁
      refine (agree_expression hcall key hs₂.atRest hscope₂).bind fun k s₃ _ hs₃ => ?_
      refine (agree_assignElement hs₃.atRest t k v span).bind fun _ s₄ _ hs₄ => ?_
      exact agree_pure hs₄.atRest v
    | _ =>
      simp only [expression]
      refine (agree_expression hcall value hs hscope).bind fun _ s₁ _ hs₁ => ?_
      exact agree_fail hs₁.atRest _ _
  | .index target key span, s, hs, hscope => by
    rw [expression, expression]
    refine (agree_expression hcall target hs hscope).bind fun t s₁ _ hs₁ => ?_
    have hscope₁ := hs₁.grows.hasScope hscope
    refine (agree_expression hcall key hs₁.atRest hscope₁).bind fun k s₂ _ hs₂ => ?_
    exact agree_get_bind (agree_lift hs₂.atRest span _)
  | .function parameters body _, s, hs, hscope => by
    rw [expression, expression]
    exact agree_modifyGet (Store.settles_addClosure hs hscope)
  | .call callee arguments span, s, hs, hscope => by
    -- the callee and the arguments are in the tree; the body is not, and is left to `hcall`
    rw [expression, expression]
    refine (agree_expression hcall callee hs hscope).bind fun function s₁ _ hs₁ => ?_
    refine (agree_expressions hcall arguments hs₁.atRest (hs₁.grows.hasScope hscope)).bind
      fun values s₂ _ hs₂ => ?_
    exact agree_callValue hcall hs₂.atRest function values span callee.span
termination_by structural e => e

theorem agree_expressions (hcall : CallersAgree call call') : ∀ (es : List Expr) {s : Store},
    s.AtRest → s.HasScope scope → Agree (expressions call scope es) (expressions call' scope es) s
  | [], s, hs, _ => by
    rw [expressions, expressions]
    exact agree_pure hs _
  | e :: rest, s, hs, hscope => by
    rw [expressions, expressions]
    refine (agree_expression hcall e hs hscope).bind fun value s₁ _ hs₁ => ?_
    refine (agree_expressions hcall rest hs₁.atRest (hs₁.grows.hasScope hscope)).bind
      fun values s₂ _ hs₂ => ?_
    exact agree_pure hs₂.atRest _
termination_by structural es => es

theorem agree_pairs (hcall : CallersAgree call call') : ∀ (entries : List (Expr × Expr))
    (table : Table) {s : Store}, s.AtRest → s.HasScope scope →
    Agree (pairs call scope table entries) (pairs call' scope table entries) s
  | [], table, s, hs, _ => by
    rw [pairs, pairs]
    exact agree_pure hs table
  | (key, value) :: rest, table, s, hs, hscope => by
    rw [pairs, pairs]
    refine (agree_expression hcall key hs hscope).bind fun k s₁ _ hs₁ => ?_
    have hscope₁ := hs₁.grows.hasScope hscope
    refine (agree_expression hcall value hs₁.atRest hscope₁).bind fun v s₂ _ hs₂ => ?_
    refine (agree_insertPair hs₂.atRest table k v key.span).bind fun table' s₃ _ hs₃ => ?_
    exact agree_pairs hcall rest table' hs₃.atRest
      (hs₃.grows.hasScope (hs₂.grows.hasScope hscope₁))
termination_by structural entries => entries

end

end Expressions

end Eval

end Script
