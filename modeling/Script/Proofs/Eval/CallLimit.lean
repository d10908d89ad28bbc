import Script.Proofs.Sequence
import Script.Eval

/-!
# What cannot exceed the calls

Only a call of a function fails for too many calls. None of the other steps of an evaluation does,
whatever the store holds: not a name, not an operator, not an index, not a built-in function, and
not the look for the function that is to be called.

* `Eval.NeverExceeds`: evaluations that never fail in this way;
* `Eval.callee_eq_ok_iff`: when a function is found that takes the arguments.
-/

namespace Script

namespace Eval

variable {α β : Type}

/-! ### Steps that never exceed -/

/-- An evaluation never fails for too many calls. -/
def NeverExceeds (x : Eval α) : Prop :=
  ∀ s span s', x s ≠ .error ⟨.callDepthExceeded, span⟩ s'

theorem neverExceeds_pure (a : α) : NeverExceeds (pure a : Eval α) := by
  rintro s span s' ⟨⟩

theorem neverExceeds_fail {cause : RuntimeCause} (h : cause ≠ .callDepthExceeded) (span : Span) :
    NeverExceeds (fail cause span : Eval α) := by
  rintro s span' s' heq
  cases heq
  exact h rfl

theorem neverExceeds_lift {r : Except RuntimeCause α} (h : r ≠ .error .callDepthExceeded)
    (span : Span) : NeverExceeds (lift span r) := by
  cases r with
  | ok a => exact neverExceeds_pure a
  | error cause => exact neverExceeds_fail (fun heq => h (congrArg Except.error heq)) span

theorem NeverExceeds.bind {x : Eval α} {f : α → Eval β} (hx : NeverExceeds x)
    (hf : ∀ a, NeverExceeds (f a)) : NeverExceeds (x >>= f) := by
  intro s span s' heq
  cases hxs : x s with
  | ok a s₁ =>
    rw [bind_ok hxs] at heq
    exact hf a s₁ span s' heq
  | error error s₁ =>
    rw [bind_error hxs] at heq
    cases heq
    exact hx s span s' hxs

theorem neverExceeds_get_bind {f : Store → Eval α} (h : ∀ s, NeverExceeds (f s)) :
    NeverExceeds (get >>= f) :=
  fun s => h s s

theorem neverExceeds_resolve (scope : Ref .scope) (ident : Ident) :
    NeverExceeds (resolve scope ident) := by
  refine neverExceeds_get_bind fun s => ?_
  split
  · exact neverExceeds_pure _
  · split
    · exact neverExceeds_pure _
    · exact neverExceeds_fail (by simp) _

theorem neverExceeds_assignName (scope : Ref .scope) (ident : Ident) (value : Value) :
    NeverExceeds (assignName scope ident value) := by
  refine neverExceeds_get_bind fun s => ?_
  split
  · rintro s span s' ⟨⟩
  · exact neverExceeds_fail (by simp) _

theorem exactly_ne (n : Int) : exactly n ≠ .error .callDepthExceeded := by
  unfold exactly
  split <;> simp

theorem apply_unary_ne (op : UnaryOp) (value : Value) :
    op.apply value ≠ .error .callDepthExceeded := by
  unfold UnaryOp.apply
  split
  · simp
  · exact exactly_ne _
  · simp
  · simp

theorem onIntegers_ne (op : BinaryOp) (a b : Integer) :
    op.onIntegers a b ≠ .error .callDepthExceeded := by
  cases op with
  | add | subtract | multiply => exact exactly_ne _
  | divide =>
    unfold BinaryOp.onIntegers
    dsimp only
    split
    · simp
    · exact exactly_ne _
  | _ => simp [BinaryOp.onIntegers]

theorem apply_binary_ne (op : BinaryOp) (left right : Value) :
    op.apply left right ≠ .error .callDepthExceeded := by
  unfold BinaryOp.apply
  split
  · exact onIntegers_ne op _ _
  · unfold BinaryOp.onBooleans
    split <;> simp
  · unfold BinaryOp.onStrings
    split <;> simp
  · split <;> simp

theorem position_ne (key : Value) (length : Nat) :
    key.position length ≠ .error .callDepthExceeded := by
  unfold Value.position
  split
  · dsimp only
    split <;> simp
  · simp

theorem map_ne {r : Except RuntimeCause α} (h : r ≠ .error .callDepthExceeded) (f : α → β) :
    r.map f ≠ .error .callDepthExceeded := by
  cases r with
  | ok a => simp [Except.map]
  | error cause =>
    rintro ⟨⟩
    exact h rfl

theorem place_ne (s : Store) (target key : Value) :
    s.place target key ≠ .error .callDepthExceeded := by
  unfold Store.place
  split
  · exact map_ne (position_ne key _) _
  · split <;> simp
  · simp

theorem index_ne (s : Store) (target key : Value) :
    s.index target key ≠ .error .callDepthExceeded := by
  unfold Store.index
  have hplace := place_ne s target key
  split
  · simp
  · split <;> simp
  · next cause h =>
    rw [h] at hplace
    intro heq
    cases heq
    exact hplace rfl

theorem elementsOf_ne (b : Builtin) (s : Store) (argument : Value) :
    b.elementsOf s argument ≠ .error .callDepthExceeded := by
  unfold Builtin.elementsOf
  split <;> simp

theorem result_ne (b : Builtin) (s : Store) (arguments : List Value) :
    b.result s arguments ≠ .error .callDepthExceeded := by
  unfold Builtin.result
  split
  · refine map_ne ?_ _
    unfold Builtin.length
    split
    · exact exactly_ne _
    · exact exactly_ne _
    · simp
  · exact map_ne (elementsOf_ne _ s _) _
  · exact map_ne (elementsOf_ne _ s _) _
  · exact map_ne (elementsOf_ne _ s _) _
  · exact map_ne (elementsOf_ne _ s _) _
  · simp

theorem neverExceeds_assignElement (target key value : Value) (span : Span) :
    NeverExceeds (assignElement target key value span) := by
  refine neverExceeds_get_bind fun s => ?_
  refine (neverExceeds_lift (place_ne s target key) span).bind fun place => ?_
  rintro s span s' ⟨⟩

theorem neverExceeds_callBuiltin (b : Builtin) (arguments : List Value) (span : Span) :
    NeverExceeds (callBuiltin b arguments span) := by
  refine neverExceeds_get_bind fun s => ?_
  refine (neverExceeds_lift (result_ne b s arguments) span).bind fun result => ?_
  cases result with
  | value value => exact neverExceeds_pure value
  | newArray elements => rintro s span s' ⟨⟩

theorem neverExceeds_insertPair (table : Table) (key value : Value) (span : Span) :
    NeverExceeds (insertPair table key value span) := by
  unfold insertPair
  split
  · exact neverExceeds_pure _
  · exact neverExceeds_fail (by simp) _

/-- **A function is found and takes the arguments** exactly if it is there and has as many
parameters. -/
theorem callee_eq_ok_iff {s s' : Store} {ref : Ref .closure} {arguments : List Value} {span : Span}
    {closure : Closure} : callee ref arguments span s = .ok closure s' ↔
      s.closures.get? ref = some closure ∧ closure.parameters.length = arguments.length ∧
        s' = s := by
  rw [callee, get_bind]
  cases hget : s.closures.get? ref with
  | none =>
    constructor
    · rintro ⟨⟩
    · rintro ⟨⟨⟩, -⟩
  | some found =>
    dsimp only
    split
    · next harity =>
      constructor
      · rintro ⟨⟩
        exact ⟨rfl, harity, rfl⟩
      · rintro ⟨⟨⟩, -, rfl⟩
        rfl
    · next harity =>
      constructor
      · rintro ⟨⟩
      · rintro ⟨⟨⟩, h, -⟩
        exact absurd h harity

/-- A function is found that takes the arguments, or the call fails, but not for too many calls. -/
theorem callee_cases (s : Store) (ref : Ref .closure) (arguments : List Value) (span : Span) :
    (∃ closure, s.closures.get? ref = some closure ∧
      closure.parameters.length = arguments.length ∧
      callee ref arguments span s = .ok closure s) ∨
    ∃ cause, cause ≠ .callDepthExceeded ∧
      callee ref arguments span s = .error ⟨cause, span⟩ s := by
  rw [callee, get_bind]
  cases hget : s.closures.get? ref with
  | none => exact .inr ⟨.notCallable .function, nofun, rfl⟩
  | some closure =>
    by_cases harity : closure.parameters.length = arguments.length
    · refine .inl ⟨closure, rfl, harity, ?_⟩
      dsimp only
      rw [if_pos harity]
      rfl
    · refine .inr ⟨.wrongArity closure.parameters.length arguments.length, nofun, ?_⟩
      dsimp only
      rw [if_neg harity]
      rfl

end Eval

end Script
