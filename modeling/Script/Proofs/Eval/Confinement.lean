import Script.Proofs.Machine.Authority

/-!
# Evaluation is confined to what is in reach

Whatever a node or a call does, it gets at no object but those that its scope, or its function and
arguments, lead to, and those that it makes. All other objects stay as they were, also where an
error stops the evaluation half-way.

* `Eval.staysConfined_node`, `Eval.staysConfined_callWithin`: nodes and calls;
* `Eval.confined_to_reach`: both, and what follows for two functions that share little.
-/

namespace Script

namespace Eval

/-- The store that an evaluation leaves, whether it succeeds or fails. -/
def storeAfter {α : Type} : EStateM.Result RuntimeError Store α → Store
  | .ok _ store => store
  | .error _ store => store

/-- What the value of an evaluation refers to. An error refers to nothing. -/
def objectsGiven : EStateM.Result RuntimeError Store Value → List Object
  | .ok value _ => value.objects
  | .error _ _ => []

/-- An evaluation stays confined to what the roots lead to: all else that existed before is as it
was, and what the roots and the value lead to afterwards, the roots led to before or is new. -/
structure StaysConfined (before : Store) (roots : Object → Prop)
    (result : EStateM.Result RuntimeError Store Value) : Prop where
  same : ∀ o, before.Has o → ¬ before.ReachedFrom roots o → before.Same (storeAfter result) o
  gained : ∀ o,
    (storeAfter result).ReachedFrom (fun root => roots root ∨ root ∈ objectsGiven result) o →
      before.ReachedFrom roots o ∨ ¬ before.Has o ∧ (storeAfter result).Has o

/-- What a call is given: the function and the arguments. -/
def Given (function : Ref .closure) (arguments : List Value) (o : Object) : Prop :=
  o ∈ Object.closure function :: arguments.flatMap Value.objects

/-- A machine that comes to a result within what is allowed shows that the result is confined. -/
theorem staysConfined_of_steps {before : Store} {roots : Object → Prop} {m : Machine}
    {result : EStateM.Result RuntimeError Store Value} (hstart : m.store = before)
    (htask : ∀ o ∈ m.task.objects, roots o) (hframes : m.frames = [])
    (h : m.Steps (Machine.answer [] m.active result)) : StaysConfined before roots result := by
  subst hstart
  have hwithin : Machine.Within m.store roots m :=
    ⟨.start m.store roots, fun o ho => Store.allowed_of_root (htask o ho), by simp [hframes]⟩
  obtain ⟨hstore, hgiven, -⟩ := hwithin.steps h
  cases result with
  | ok value after =>
    refine ⟨hstore.same, fun o ho => ?_⟩
    obtain ⟨root, hroot | hroot, hreaches⟩ := ho
    · exact hstore.reaches (Store.allowed_of_root hroot) hreaches
    · exact hstore.reaches (hgiven root hroot) hreaches
  | error error after =>
    refine ⟨hstore.same, fun o ho => ?_⟩
    obtain ⟨root, hroot | hroot, hreaches⟩ := ho
    · exact hstore.reaches (Store.allowed_of_root hroot) hreaches
    · cases hroot

theorem staysConfined_node (before : Store) (scope : Ref .scope) (n : Node) {calls : Nat}
    (hcalls : calls ≤ maxCalls) :
    StaysConfined before (· = .scope scope) (node (callWithin calls) scope n before) := by
  have hperforms := Machine.performs_callWithin calls (Nat.sub_add_cancel hcalls)
  refine staysConfined_of_steps (m := Machine.ofNode scope n before (maxCalls - calls)) rfl ?_ rfl
    (Machine.steps_node hperforms n [] before)
  exact fun o ho => List.mem_singleton.1 ho

theorem staysConfined_callWithin (before : Store) (ref : Ref .closure) (arguments : List Value)
    (span : Span) {calls : Nat} (hcalls : calls ≤ maxCalls) :
    StaysConfined before (Given ref arguments) (callWithin calls ref arguments span before) := by
  have hperforms := Machine.performs_callWithin calls (Nat.sub_add_cancel hcalls)
  refine staysConfined_of_steps (m := ⟨.call (.function ref) arguments span span, [], before, _⟩)
    rfl ?_ rfl (hperforms ref arguments span span [] before)
  exact fun o ho => ho

/-- **Evaluation is confined to what is in reach.** A node gets at nothing but what its scope leads
to and what is made meanwhile, and leaves all else as it was; a call does the same with the function
and the arguments. So of all that a function `g` leads to, a call of `f` can change no more than
what `f` or an argument leads to as well; and a function that is made by a call leads to nothing
that was there before, such as what other calls have made, but what the call was given led to. -/
theorem confined_to_reach (before : Store) {calls : Nat} (hcalls : calls ≤ maxCalls) :
    (∀ (scope : Ref .scope) (n : Node),
      StaysConfined before (· = .scope scope) (node (callWithin calls) scope n before)) ∧
    (∀ (f : Ref .closure) (arguments : List Value) (span : Span),
      StaysConfined before (Given f arguments) (callWithin calls f arguments span before)) ∧
    (∀ (f g : Ref .closure) (arguments : List Value) (span : Span) (o : Object),
      before.Has o → before.Reaches (.closure g) o →
      ¬ before.Same (storeAfter (callWithin calls f arguments span before)) o →
      before.ReachedFrom (Given f arguments) o) ∧
    ∀ (factory g : Ref .closure) (arguments : List Value) (span : Span) (after : Store),
      callWithin calls factory arguments span before = .ok (.function g) after →
      ∀ o, before.Has o → after.Reaches (.closure g) o →
        before.ReachedFrom (Given factory arguments) o := by
  refine ⟨fun scope n => staysConfined_node before scope n hcalls,
    fun f arguments span => staysConfined_callWithin before f arguments span hcalls, ?_, ?_⟩
  · intro f g arguments span o hhas _ hchanged
    -- what the call's givens do not lead to stays the same
    refine Classical.byContradiction fun hnot => hchanged ?_
    exact (staysConfined_callWithin before f arguments span hcalls).same o hhas hnot
  · intro factory g arguments span after hcall o hhas hreaches
    have hgained := (staysConfined_callWithin before factory arguments span hcalls).gained o
    rw [hcall] at hgained
    -- what the new function leads to was in reach, or is new and so did not exist before
    rcases hgained ⟨.closure g, .inr List.mem_cons_self, hreaches⟩ with hreached | ⟨hnew, -⟩
    · exact hreached
    · exact absurd hhas hnew

/-- Two counters that two calls of one function have made:
`let make = fn() { let n = 0; return fn() { n = n + 1 } }`. A call of the first counts in its own
scope and leaves the scope of the second as it was. -/
theorem confined_to_reach_twoCounters :
    let root := Store.empty.addRoot
    let at0 : Span := .point 0
    let n : Expr := .name ⟨"n", at0⟩
    let count : Block := ⟨[.expression (.assign n (.binary .add n (.integer 1 at0) at0) at0)], at0⟩
    let make : Block := ⟨[.binding ⟨"n", at0⟩ (.integer 0 at0) at0,
      .returning (some (.function [] count at0)) at0], at0⟩
    let factory := root.2.addClosure ⟨[], make, root.1⟩
    let one := storeAfter (callWithin 1 ⟨0⟩ [] at0 (factory.2.define root.1 "make" factory.1))
    let two := storeAfter (callWithin 1 ⟨0⟩ [] at0 one)
    let after := storeAfter (callWithin 1 ⟨1⟩ [] at0 two)
    1 ≤ maxCalls ∧ two.Has (.scope ⟨2⟩) ∧ ¬ two.ReachedFrom (Given ⟨1⟩ []) (.scope ⟨2⟩) ∧
      two.Same after (.scope ⟨2⟩) ∧ ¬ two.Same after (.scope ⟨1⟩) := by
  intro root at0 n count make factory one two after
  have hhas : two.Has (.scope ⟨2⟩) := by decide +kernel
  -- the first counter leads to itself, its scope, the root, and the function that made it
  have hclosed : ∀ o ∈ [Object.closure ⟨1⟩, .scope ⟨1⟩, .scope ⟨0⟩, .closure ⟨0⟩],
      ∀ o' ∈ two.children o, o' ∈ [Object.closure ⟨1⟩, .scope ⟨1⟩, .scope ⟨0⟩, .closure ⟨0⟩] := by
    decide +kernel
  have hreach : ∀ o, two.ReachedFrom (Given ⟨1⟩ []) o →
      o ∈ [Object.closure ⟨1⟩, .scope ⟨1⟩, .scope ⟨0⟩, .closure ⟨0⟩] := by
    rintro o ⟨r, hr, hreaches⟩
    obtain rfl := List.mem_singleton.1 hr
    induction hreaches with
    | refl => exact List.mem_cons_self
    | tail _ hchild ih => exact hclosed _ ih _ hchild
  have hnot : ¬ two.ReachedFrom (Given ⟨1⟩ []) (.scope ⟨2⟩) := fun h =>
    absurd (hreach _ h) (by decide)
  have hone : 1 ≤ maxCalls := by decide
  refine ⟨hone, hhas, hnot, ((confined_to_reach two hone).2.1 ⟨1⟩ [] at0).same _ hhas hnot, ?_⟩
  intro hsame
  have hcount := congrArg (·.bind (·.bindings.get? "n")) hsame
  revert hcount
  decide +kernel

end Eval

end Script
