import Script.Eval

/-!
# What every expression does

An expression is evaluated in a few kinds of steps, one after another, all of them in one scope. So
a property that these steps have and that sequences inherit is one of every expression, if calls
have it as well. Developments that follow an evaluation give the steps, and get the expressions from
here.

* `Eval.Rules`: the steps have a property, and sequences inherit it;
* `Eval.Rules.expression`: then expressions have it.
-/

namespace Script

namespace Eval

/-- **A property of evaluations holds of all steps** that an expression in a scope is made of, and
of sequences of what has it. -/
structure Rules (scope : Ref .scope) (P : (α : Type) → Eval α → Prop) : Prop where
  pure : ∀ {α : Type} (a : α), P α (return a)
  bind : ∀ {α β : Type} {x : Eval α} {f : α → Eval β}, P α x → (∀ a, P β (f a)) → P β (x >>= f)
  /-- A step may look at the store. -/
  get_bind : ∀ {α : Type} {f : Store → Eval α}, (∀ s, P α (f s)) → P α (get >>= f)
  lift : ∀ {α : Type} (span : Span) (r : Except RuntimeCause α), P α (lift span r)
  resolve : ∀ ident, P Value (resolve scope ident)
  assignName : ∀ ident value, P Unit (assignName scope ident value)
  assignElement : ∀ target key value span, P Unit (assignElement target key value span)
  callBuiltin : ∀ b arguments span, P Value (callBuiltin b arguments span)
  insertPair : ∀ table key value span, P Table (insertPair table key value span)
  addArray : ∀ elements, P Value (modifyGet (·.addArray elements))
  addMap : ∀ table, P Value (modifyGet (·.addMap table))
  addClosure : ∀ parameters body, P Value (modifyGet (·.addClosure ⟨parameters, body, scope⟩))

namespace Rules

variable {scope : Ref .scope} {P : (α : Type) → Eval α → Prop} {call : Caller}

theorem fail {α : Type} (h : Rules scope P) (cause : RuntimeCause) (span : Span) :
    P α (Eval.fail cause span) :=
  h.lift span (.error cause)

theorem callValue (h : Rules scope P)
    (hcall : ∀ ref arguments span, P Value (call ref arguments span)) (function : Value)
    (arguments : List Value) (span callee : Span) :
    P Value (callValue call function arguments span callee) := by
  cases function with
  | function ref => exact hcall ref arguments span
  | builtin b => exact h.callBuiltin b arguments span
  | _ => exact h.fail _ _

mutual

/-- **Expressions have every property of their steps** that calls have. -/
theorem expression (h : Rules scope P)
    (hcall : ∀ ref arguments span, P Value (call ref arguments span)) :
    ∀ e : Expr, P Value (expression call scope e)
  | .name ident => by
    rw [Eval.expression]
    exact h.resolve ident
  | .integer value _ => by
    rw [Eval.expression]
    exact h.pure _
  | .boolean value _ => by
    rw [Eval.expression]
    exact h.pure _
  | .string value _ => by
    rw [Eval.expression]
    exact h.pure _
  | .array elements _ => by
    rw [Eval.expression]
    exact h.bind (expressions h hcall elements) fun values => h.addArray values
  | .map entries _ => by
    rw [Eval.expression]
    exact h.bind (pairs h hcall entries ∅) fun table => h.addMap table
  | .unary op operand span => by
    rw [Eval.expression]
    exact h.bind (expression h hcall operand) fun _ => h.lift span _
  | .binary op left right span => by
    rw [Eval.expression]
    refine h.bind (expression h hcall left) fun _ => ?_
    exact h.bind (expression h hcall right) fun _ => h.lift span _
  | .assign target value span => by
    -- the value comes first, whatever it is assigned to
    have hvalue := expression h hcall value
    cases target with
    | name ident =>
      rw [Eval.expression]
      refine h.bind hvalue fun v => ?_
      exact h.bind (h.assignName ident v) fun _ => h.pure v
    | index target key span =>
      rw [Eval.expression]
      refine h.bind hvalue fun v => ?_
      refine h.bind (expression h hcall target) fun t => ?_
      refine h.bind (expression h hcall key) fun k => ?_
      exact h.bind (h.assignElement t k v span) fun _ => h.pure v
    | _ =>
      simp only [Eval.expression]
      exact h.bind hvalue fun _ => h.fail _ _
  | .index target key span => by
    rw [Eval.expression]
    refine h.bind (expression h hcall target) fun _ => ?_
    refine h.bind (expression h hcall key) fun _ => ?_
    exact h.get_bind fun _ => h.lift span _
  | .function parameters body _ => by
    rw [Eval.expression]
    exact h.addClosure _ body
  | .call callee arguments span => by
    rw [Eval.expression]
    refine h.bind (expression h hcall callee) fun function => ?_
    refine h.bind (expressions h hcall arguments) fun values => ?_
    exact h.callValue hcall function values span callee.span
termination_by structural e => e

theorem expressions (h : Rules scope P)
    (hcall : ∀ ref arguments span, P Value (call ref arguments span)) :
    ∀ es : List Expr, P (List Value) (expressions call scope es)
  | [] => by
    rw [Eval.expressions]
    exact h.pure _
  | e :: rest => by
    rw [Eval.expressions]
    refine h.bind (expression h hcall e) fun _ => ?_
    exact h.bind (expressions h hcall rest) fun _ => h.pure _
termination_by structural es => es

theorem pairs (h : Rules scope P)
    (hcall : ∀ ref arguments span, P Value (call ref arguments span)) :
    ∀ (entries : List (Expr × Expr)) (table : Table), P Table (pairs call scope table entries)
  | [], table => by
    rw [Eval.pairs]
    exact h.pure table
  | (key, value) :: rest, table => by
    rw [Eval.pairs]
    refine h.bind (expression h hcall key) fun k => ?_
    refine h.bind (expression h hcall value) fun v => ?_
    exact h.bind (h.insertPair table k v key.span) fun table => pairs h hcall rest table
termination_by structural entries => entries

end

end Rules

end Eval

end Script
