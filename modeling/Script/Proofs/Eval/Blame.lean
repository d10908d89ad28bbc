import Mathlib.Logic.Relation
import Script.Proofs.Eval.CallLimit
import Script.Proofs.Syntax.Layout

/-!
# What an error of evaluation is blamed on

An evaluation fails at some part of the text: the span of its error is that of an expression that
was being evaluated. This may be an expression of a function that was made elsewhere and is only
called here, so the functions of a store have to be looked at as well; but each of them has been an
expression of a program itself.

* `Part.SpansIn`: all spans in a part have a property;
* `Eval.Tells`: an evaluation fails only at spans with a property, and makes functions only from
  such parts;
* `Eval.tells_expression`, `Eval.tells_callWithin`: expressions and calls;
* `Eval.tells_program`: whole programs.
-/

namespace Script

variable {S : Span → Prop} {α β : Type}

/-! ### Spans in parts -/

/-- The spans of a part, and of all parts inside it, have a property. -/
def Part.SpansIn (S : Span → Prop) (part : Part) : Prop :=
  ∀ inside, Relation.ReflTransGen (fun outer inner => inner ∈ outer.children) part inside →
    S inside.span

namespace Part

variable {part inner : Part}

theorem SpansIn.span (h : part.SpansIn S) : S part.span :=
  h part .refl

theorem SpansIn.child (h : part.SpansIn S) (hinner : inner ∈ part.children) : inner.SpansIn S :=
  fun inside hinside => h inside (.head hinner hinside)

/-- The nodes of a program, if all its parts have spans with the property. -/
theorem spansIn_of_hasPart {program : Program} (h : ∀ part, program.HasPart part → S part.span)
    {n : Node} (hn : n ∈ program.nodes) : (Part.node n).SpansIn S := by
  intro inside hinside
  have hpart : program.HasPart inside := by
    induction hinside with
    | refl => exact .node hn
    | tail _ hchild ih => exact ih.child hchild
  exact h inside hpart

end Part

/-- The bodies of all functions of a store have only spans with a property. -/
def Store.BodiesIn (S : Span → Prop) (s : Store) : Prop :=
  ∀ ref closure, s.closures.get? ref = some closure → (Part.block closure.body).SpansIn S

theorem Store.BodiesIn.of_closures_eq {s s' : Store} (h : s.BodiesIn S)
    (heq : s'.closures = s.closures) : s'.BodiesIn S := by
  intro ref closure hclosure
  rw [heq] at hclosure
  exact h ref closure hclosure

theorem Store.closures_write (s : Store) (place : Place) (value : Value) :
    (s.write place value).closures = s.closures := by
  cases place <;> rfl

theorem Store.closures_foldl_define (scope : Ref .scope) (bindings : List (String × Value))
    (s : Store) : (bindings.foldl (fun s (name, value) => s.define scope name value) s).closures =
      s.closures := by
  induction bindings generalizing s with
  | nil => rfl
  | cons binding bindings ih => exact ih (s.define scope binding.1 binding.2)

namespace Eval

/-! ### Steps -/

/-- An evaluation fails only at spans with a property, as long as all functions have bodies with
such spans alone; and it makes no other functions. -/
def Tells (S : Span → Prop) (x : Eval α) : Prop :=
  ∀ s, s.BodiesIn S →
    match x s with
    | .ok _ s' => s'.BodiesIn S
    | .error error _ => S error.span

theorem tells_pure (a : α) : Tells S (pure a : Eval α) :=
  fun _ hs => hs

theorem Tells.bind {x : Eval α} {f : α → Eval β} (hx : Tells S x) (hf : ∀ a, Tells S (f a)) :
    Tells S (x >>= f) := by
  intro s hs
  have hfirst := hx s hs
  cases hxs : x s with
  | ok a s' =>
    rw [hxs] at hfirst
    rw [bind_ok hxs]
    exact hf a s' hfirst
  | error error s' =>
    rw [hxs] at hfirst
    rw [bind_error hxs]
    exact hfirst

theorem tells_get_bind {f : Store → Eval α} (hf : ∀ s, Tells S (f s)) : Tells S (get >>= f) :=
  fun s => hf s s

theorem tells_fail {span : Span} (cause : RuntimeCause) (h : S span) :
    Tells S (fail cause span : Eval α) :=
  fun _ _ => h

theorem tells_lift {span : Span} (r : Except RuntimeCause α) (h : S span) :
    Tells S (lift span r) := by
  cases r with
  | ok a => exact tells_pure a
  | error cause => exact tells_fail cause h

theorem tells_modify {f : Store → Store} (hf : ∀ s, (f s).closures = s.closures) :
    Tells S (modify f : Eval Unit) :=
  fun s hs => hs.of_closures_eq (hf s)

theorem tells_modifyGet {f : Store → α × Store} (hf : ∀ s, (f s).2.closures = s.closures) :
    Tells S (modifyGet f : Eval α) :=
  fun s hs => hs.of_closures_eq (hf s)

theorem tells_addClosure {closure : Closure} (h : (Part.block closure.body).SpansIn S) :
    Tells S (modifyGet (·.addClosure closure) : Eval Value) := by
  intro s hs ref closure' hclosure
  have hget : (s.closures.alloc closure).get? ref = some closure' := hclosure
  rw [Heap.get?_alloc] at hget
  split at hget
  · cases hget
    exact h
  · exact hs ref closure' hget

theorem tells_resolve {ident : Ident} (scope : Ref .scope) (h : S ident.span) :
    Tells S (resolve scope ident) := by
  refine tells_get_bind fun s => ?_
  split
  · exact tells_pure _
  · split
    · exact tells_pure _
    · exact tells_fail _ h

theorem tells_assignName {ident : Ident} (scope : Ref .scope) (value : Value) (h : S ident.span) :
    Tells S (assignName scope ident value) := by
  refine tells_get_bind fun s => ?_
  split
  · exact tells_modify fun _ => rfl
  · exact tells_fail _ h

theorem tells_assignElement {span : Span} (target key value : Value) (h : S span) :
    Tells S (assignElement target key value span) :=
  tells_get_bind fun _ => (tells_lift _ h).bind fun place =>
    tells_modify fun s => s.closures_write place value

theorem tells_callBuiltin {span : Span} (b : Builtin) (arguments : List Value) (h : S span) :
    Tells S (callBuiltin b arguments span) := by
  refine tells_get_bind fun s => (tells_lift _ h).bind fun result => ?_
  cases result with
  | value value => exact tells_pure value
  | newArray elements => exact tells_modifyGet fun _ => rfl

theorem tells_insertPair {span : Span} (table : Table) (key value : Value) (h : S span) :
    Tells S (insertPair table key value span) := by
  unfold insertPair
  split
  · exact tells_pure _
  · exact tells_fail _ h

theorem tells_inner (kind : ScopeKind) (scope : Ref .scope) : Tells S (inner kind scope) :=
  tells_modifyGet fun _ => rfl

theorem tells_takeReturn (scope : Ref .scope) : Tells S (takeReturn scope) := by
  refine tells_get_bind fun s => ?_
  split
  · exact Tells.bind (tells_modify fun _ => rfl) fun _ => tells_pure _
  · exact tells_pure _

/-! ### Trees -/

/-- Calls fail only at spans with a property, if they stand there. -/
def CallsTell (S : Span → Prop) (call : Caller) : Prop :=
  ∀ ref arguments span, S span → Tells S (call ref arguments span)

section Trees

variable {call : Caller}

theorem tells_callValue (hcall : CallsTell S call) {span callee : Span} (function : Value)
    (arguments : List Value) (h : S span) (hcallee : S callee) :
    Tells S (callValue call function arguments span callee) := by
  cases function with
  | function ref => exact hcall ref arguments span h
  | builtin b => exact tells_callBuiltin b arguments h
  | _ => exact tells_fail _ hcallee

mutual

/-- **An expression** fails at one of its spans, or at one of a function that it calls. -/
theorem tells_expression (hcall : CallsTell S call) (scope : Ref .scope) : ∀ e : Expr,
    (Part.expression e).SpansIn S → Tells S (expression call scope e)
  | .name ident, h => by
    rw [expression]
    exact tells_resolve scope h.span
  | .integer value _, _ => by
    rw [expression]
    exact tells_pure _
  | .boolean value _, _ => by
    rw [expression]
    exact tells_pure _
  | .string value _, _ => by
    rw [expression]
    exact tells_pure _
  | .array elements _, h => by
    rw [expression]
    have helements : ∀ e ∈ elements, (Part.expression e).SpansIn S := fun e he =>
      h.child (List.mem_map_of_mem he)
    refine (tells_expressions hcall scope elements helements).bind fun values => ?_
    exact tells_modifyGet fun _ => rfl
  | .map entries _, h => by
    rw [expression]
    have hentries : ∀ kv ∈ entries,
        (Part.expression kv.1).SpansIn S ∧ (Part.expression kv.2).SpansIn S := fun kv hkv =>
      ⟨h.child (List.mem_flatMap.2 ⟨kv, hkv, by simp⟩),
        h.child (List.mem_flatMap.2 ⟨kv, hkv, by simp⟩)⟩
    refine (tells_pairs hcall scope entries ∅ hentries).bind fun table => ?_
    exact tells_modifyGet fun _ => rfl
  | .unary op operand span, h => by
    rw [expression]
    have hoperand : (Part.expression operand).SpansIn S := h.child (by simp [Part.children])
    exact (tells_expression hcall scope operand hoperand).bind fun _ => tells_lift _ h.span
  | .binary op left right span, h => by
    rw [expression]
    have hleft : (Part.expression left).SpansIn S := h.child (by simp [Part.children])
    have hright : (Part.expression right).SpansIn S := h.child (by simp [Part.children])
    refine (tells_expression hcall scope left hleft).bind fun _ => ?_
    exact (tells_expression hcall scope right hright).bind fun _ => tells_lift _ h.span
  | .assign target value span, h => by
    have hvalue := tells_expression hcall scope value (h.child (by simp [Part.children]))
    have htarget : (Part.expression target).SpansIn S := h.child (by simp [Part.children])
    -- which span tells of a failed assignment depends on what is assigned to
    cases target with
    | name ident =>
      rw [expression]
      refine hvalue.bind fun v => ?_
      exact (tells_assignName scope v htarget.span).bind fun _ => tells_pure v
    | index target key span =>
      rw [expression]
      have hindexed : (Part.expression target).SpansIn S := htarget.child (by simp [Part.children])
      have hkey : (Part.expression key).SpansIn S := htarget.child (by simp [Part.children])
      refine hvalue.bind fun v => ?_
      refine (tells_expression hcall scope target hindexed).bind fun t => ?_
      refine (tells_expression hcall scope key hkey).bind fun k => ?_
      exact (tells_assignElement t k v htarget.span).bind fun _ => tells_pure v
    | _ =>
      simp only [expression]
      exact hvalue.bind fun _ => tells_fail _ htarget.span
  | .index target key span, h => by
    rw [expression]
    have htarget : (Part.expression target).SpansIn S := h.child (by simp [Part.children])
    have hkey : (Part.expression key).SpansIn S := h.child (by simp [Part.children])
    refine (tells_expression hcall scope target htarget).bind fun _ => ?_
    refine (tells_expression hcall scope key hkey).bind fun _ => ?_
    exact tells_get_bind fun _ => tells_lift _ h.span
  | .function parameters body _, h => by
    rw [expression]
    exact tells_addClosure (h.child (by simp [Part.children]))
  | .call callee arguments span, h => by
    rw [expression]
    have hcallee : (Part.expression callee).SpansIn S := h.child (by simp [Part.children])
    have harguments : ∀ e ∈ arguments, (Part.expression e).SpansIn S := fun e he =>
      h.child (List.mem_cons_of_mem _ (List.mem_map_of_mem he))
    refine (tells_expression hcall scope callee hcallee).bind fun function => ?_
    refine (tells_expressions hcall scope arguments harguments).bind fun values => ?_
    exact tells_callValue hcall function values h.span hcallee.span
termination_by structural e => e

theorem tells_expressions (hcall : CallsTell S call) (scope : Ref .scope) : ∀ es : List Expr,
    (∀ e ∈ es, (Part.expression e).SpansIn S) → Tells S (expressions call scope es)
  | [], _ => by
    rw [expressions]
    exact tells_pure _
  | e :: rest, h => by
    rw [expressions]
    obtain ⟨he, hrest⟩ := List.forall_mem_cons.1 h
    refine (tells_expression hcall scope e he).bind fun _ => ?_
    exact (tells_expressions hcall scope rest hrest).bind fun _ => tells_pure _
termination_by structural es => es

theorem tells_pairs (hcall : CallsTell S call) (scope : Ref .scope) :
    ∀ (entries : List (Expr × Expr)) (table : Table),
    (∀ kv ∈ entries, (Part.expression kv.1).SpansIn S ∧ (Part.expression kv.2).SpansIn S) →
    Tells S (pairs call scope table entries)
  | [], table, _ => by
    rw [pairs]
    exact tells_pure table
  | (key, value) :: rest, table, h => by
    rw [pairs]
    obtain ⟨⟨hkey, hvalue⟩, hrest⟩ := List.forall_mem_cons.1 h
    refine (tells_expression hcall scope key hkey).bind fun k => ?_
    refine (tells_expression hcall scope value hvalue).bind fun v => ?_
    refine (tells_insertPair table k v hkey.span).bind fun table => ?_
    exact tells_pairs hcall scope rest table hrest
termination_by structural entries => entries

end

mutual

/-- A node fails at one of its spans, or at one of a function that it calls. -/
theorem tells_node (hcall : CallsTell S call) (scope : Ref .scope) : ∀ n : Node,
    (Part.node n).SpansIn S → Tells S (node call scope n)
  | .binding ident value _, h => by
    rw [node]
    refine (tells_expression hcall scope value (h.child (by simp [Part.children]))).bind fun v => ?_
    exact Tells.bind (tells_modify fun _ => rfl) fun _ => tells_pure _
  | .returning none _, _ => by
    rw [node]
    exact Tells.bind (tells_modify fun _ => rfl) fun _ => tells_pure _
  | .returning (some value) _, h => by
    rw [node]
    refine (tells_expression hcall scope value (h.child (by simp [Part.children]))).bind fun v => ?_
    exact Tells.bind (tells_modify fun _ => rfl) fun _ => tells_pure _
  | .conditional condition consequence none _, h => by
    rw [node]
    have hcondition := tells_expression hcall scope condition (h.child (by simp [Part.children]))
    have hconsequence : (Part.block consequence).SpansIn S := h.child (by simp [Part.children])
    refine hcondition.bind fun c => ?_
    split
    · exact (tells_inner .block scope).bind fun scope =>
        (tells_block hcall scope consequence hconsequence).bind fun _ => tells_pure _
    · exact tells_pure _
  | .conditional condition consequence (some alternative) _, h => by
    rw [node]
    have hcondition := tells_expression hcall scope condition (h.child (by simp [Part.children]))
    have hconsequence : (Part.block consequence).SpansIn S := h.child (by simp [Part.children])
    have halternative : (Part.block alternative).SpansIn S := h.child (by simp [Part.children])
    refine hcondition.bind fun c => ?_
    split
    · exact (tells_inner .block scope).bind fun scope =>
        (tells_block hcall scope consequence hconsequence).bind fun _ => tells_pure _
    · exact (tells_inner .block scope).bind fun scope =>
        (tells_block hcall scope alternative halternative).bind fun _ => tells_pure _
  | .expression value, h => by
    rw [node]
    exact tells_expression hcall scope value (h.child (by simp [Part.children]))
termination_by structural n => n

theorem tells_nodes (hcall : CallsTell S call) (scope : Ref .scope) : ∀ ns : List Node,
    (∀ n ∈ ns, (Part.node n).SpansIn S) → Tells S (nodes call scope ns)
  | [], _ => by
    rw [nodes]
    exact tells_pure _
  | n :: rest, h => by
    rw [nodes]
    obtain ⟨hn, hrest⟩ := List.forall_mem_cons.1 h
    refine (tells_node hcall scope n hn).bind fun _ => tells_get_bind fun s => ?_
    split
    · exact tells_pure _
    · exact tells_nodes hcall scope rest hrest
termination_by structural ns => ns

theorem tells_block (hcall : CallsTell S call) (scope : Ref .scope) : ∀ b : Block,
    (Part.block b).SpansIn S → Tells S (block call scope b)
  | ⟨ns, _⟩, h => by
    rw [block]
    exact tells_nodes hcall scope ns fun n hn => h.child (List.mem_map_of_mem hn)
termination_by structural b => b

end

end Trees

/-! ### Calls and programs -/

/-- What a function does once it is found. Its body is one of those in the store. -/
theorem tells_callee_bind {ref : Ref .closure} {arguments : List Value} {span : Span}
    {f : Closure → Eval α} (h : S span)
    (hf : ∀ closure, (Part.block closure.body).SpansIn S → Tells S (f closure)) :
    Tells S (callee ref arguments span >>= f) := by
  intro s hs
  rcases callee_cases s ref arguments span with
    ⟨closure, hget, -, hcallee⟩ | ⟨cause, -, hcallee⟩
  · rw [bind_ok hcallee]
    exact hf closure (hs ref closure hget) s hs
  · rw [bind_error hcallee]
    exact h

theorem tells_enter (closure : Closure) (arguments : List Value) :
    Tells S (enter closure arguments) := by
  refine (tells_inner .function closure.scope).bind fun scope => ?_
  refine Tells.bind (tells_modify fun s => ?_) fun _ => tells_pure scope
  exact Store.closures_foldl_define scope _ s

/-- **A call** fails at its own span, or at a span in the body of a function. -/
theorem tells_callWithin (n : Nat) : CallsTell S (callWithin n) := by
  induction n with
  | zero =>
    intro ref arguments span h
    rw [callWithin]
    exact tells_callee_bind h fun _ _ => tells_fail _ h
  | succ n ih =>
    intro ref arguments span h
    rw [callWithin]
    refine tells_callee_bind h fun closure hbody => ?_
    refine (tells_enter closure arguments).bind fun scope => ?_
    refine (tells_block ih scope closure.body hbody).bind fun _ => ?_
    exact (tells_takeReturn scope).bind fun _ => tells_pure _

/-- **A program** fails at one of its spans, or at one of a function that was there before. -/
theorem tells_program (scope : Ref .scope) {program : Program}
    (h : ∀ part, program.HasPart part → S part.span) : Tells S (Eval.program scope program) := by
  have hlevel : ∀ (ns : List Node) (last : Value), (∀ n ∈ ns, (Part.node n).SpansIn S) →
      Tells S (topLevel (callWithin maxCalls) scope last ns) := by
    intro ns
    induction ns with
    | nil => exact fun last _ => tells_pure last
    | cons n rest ih =>
      intro last hns
      obtain ⟨hn, hrest⟩ := List.forall_mem_cons.1 hns
      refine (tells_node (tells_callWithin maxCalls) scope n hn).bind fun value => ?_
      refine (tells_takeReturn scope).bind fun returned => ?_
      cases returned with
      | some returned => exact tells_pure returned
      | none => exact ih value hrest
  exact hlevel program.nodes .null fun n hn => Part.spansIn_of_hasPart h hn

end Eval

end Script
