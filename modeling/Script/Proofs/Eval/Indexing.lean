import Script.Proofs.Eval.Confinement
import Script.Proofs.Machine.Containers
import Script.Proofs.Store.Places

/-!
# Index assignments are exact

An assignment to an element evaluates its right side, then the target, then the index. Each of them
may change anything, also the very container that is assigned to. What the assignment does comes
after all that: it fails and leaves everything as the three have left it, or it puts the value into
the one place that the index points to. That the container of the place exists by then follows from
the store being closed, which evaluation keeps.

* `Eval.closed_expression`, `Eval.closed_node`: evaluation keeps a store closed;
* `Eval.expression_index`, `Eval.expression_assign`: what comes after the operands;
* `Eval.index_assignment_exact`: when reading and writing succeed, and what they do.
-/

namespace Script

namespace Eval

variable {calls : Nat} {scope : Ref .scope} {before after : Store} {value : Value}

/-! ### Closed stores -/

/-- A machine that begins with what exists, in a closed store, comes to a value that exists and
to a store that is closed. No object goes away. -/
theorem closed_of_steps {m : Machine} (hclosed : m.store.Closed)
    (htask : ∀ o ∈ m.task.objects, m.store.Has o) (hframes : m.frames = [])
    (h : m.Steps (Machine.answer [] m.active (.ok value after))) :
    after.Closed ∧ (∀ o ∈ value.objects, after.Has o) ∧ ∀ o, m.store.Has o → after.Has o := by
  have hsound : m.Sound :=
    ⟨Machine.confined_empty_iff.2 hclosed, fun o ho => Machine.allowed_empty_iff.2 (htask o ho),
      by simp [hframes]⟩
  have hsound' : Machine.Sound ⟨.give value, [], after, m.active⟩ := Machine.Within.steps hsound h
  have hwithin : m.Within m.store fun _ => True :=
    ⟨.start m.store _, fun _ _ => Store.allowed_of_root trivial, by simp [hframes]⟩
  exact ⟨Machine.confined_empty_iff.1 hsound'.store, fun o ho => hsound'.has_of_mem_task ho,
    (hwithin.steps h).store.has⟩

section Closed

variable (hcalls : calls ≤ maxCalls) (h : before.Closed) (hscope : before.HasScope scope)
include hcalls h hscope

theorem closed_expression {e : Expr}
    (hvalue : expression (callWithin calls) scope e before = .ok value after) :
    after.Closed ∧ (∀ o ∈ value.objects, after.Has o) ∧ ∀ o, before.Has o → after.Has o := by
  have hperforms := Machine.performs_callWithin calls (Nat.sub_add_cancel hcalls)
  refine closed_of_steps (m := ⟨.expression scope e, [], before, maxCalls - calls⟩) h ?_ rfl
    (hvalue ▸ Machine.steps_expression hperforms e [] before)
  intro o ho
  obtain rfl := List.mem_singleton.1 ho
  exact Option.isSome_iff_exists.2 hscope

theorem closed_node {n : Node}
    (hvalue : node (callWithin calls) scope n before = .ok value after) :
    after.Closed ∧ (∀ o ∈ value.objects, after.Has o) ∧ ∀ o, before.Has o → after.Has o := by
  have hperforms := Machine.performs_callWithin calls (Nat.sub_add_cancel hcalls)
  refine closed_of_steps (m := Machine.ofNode scope n before (maxCalls - calls)) h ?_ rfl
    (hvalue ▸ Machine.steps_node hperforms n [] before)
  intro o ho
  obtain rfl := List.mem_singleton.1 ho
  exact Option.isSome_iff_exists.2 hscope

end Closed

/-! ### After the operands -/

section Operands

variable {call : Caller} {target index value : Expr} {v t k : Value} {s₀ s₁ s₂ s₃ : Store}

/-- **An index expression reads** in the state that its operands have led to, and leaves it as it
is. -/
theorem expression_index (ht : expression call scope target s₁ = .ok t s₂)
    (hk : expression call scope index s₂ = .ok k s₃) (span : Span) :
    expression call scope (.index target index span) s₁ = lift span (s₃.index t k) s₃ := by
  rw [expression, bind_ok ht, bind_ok hk]
  rfl

/-- **An index assignment writes** in the state that its operands have led to. -/
theorem expression_assign (hv : expression call scope value s₀ = .ok v s₁)
    (ht : expression call scope target s₁ = .ok t s₂)
    (hk : expression call scope index s₂ = .ok k s₃) (span whole : Span) :
    expression call scope (.assign (.index target index span) value whole) s₀ =
      (assignElement t k v span >>= fun _ => pure v) s₃ := by
  rw [expression, bind_ok hv, bind_ok ht, bind_ok hk]

end Operands

/-- An index is read as a value through any expressions that give the target and an equal index,
as long as the container stays as it is. -/
def ReadAs (before : Store) (t k v : Value) (after : Store) : Prop :=
  ∀ (call : Caller) (scope : Ref .scope) (target index : Expr) (span : Span) (other : Value)
    (u u' u'' : Store), expression call scope target u = .ok t u' →
    expression call scope index u' = .ok other u'' → before.equal other k = true →
    (∀ o ∈ t.objects, after.Same u'' o) →
    expression call scope (.index target index span) u = .ok v u''

theorem readAs_of_assignedAt {t k v : Value} (h : before.AssignedAt t k v after) :
    ReadAs before t k v after := by
  intro call scope target index span other u u' u'' htarget hindex hequal hsame
  have hread : u''.index t other = .ok v := by
    rw [Store.index_of_same hsame]
    exact h.reads other hequal
  rw [expression_index htarget hindex, hread]
  rfl

/-- **Index assignments are exact.** Whatever the three operands are and do, an assignment fails in
the state that they have led to, or it gives its right side and changes the one element or key that
the index points to, which then is read through every reference to the container. Writing to an
array and reading from it succeed for the same integers, those that lie in it. A map is read where a
key is stored that is equal, and written wherever the key is hashable. -/
theorem index_assignment_exact {target index value : Expr} {v t k : Value} {s₀ s₁ s₂ s₃ : Store}
    (hcalls : calls ≤ maxCalls) (hclosed : s₀.Closed) (hscope : s₀.HasScope scope)
    (hv : expression (callWithin calls) scope value s₀ = .ok v s₁)
    (ht : expression (callWithin calls) scope target s₁ = .ok t s₂)
    (hk : expression (callWithin calls) scope index s₂ = .ok k s₃) (span whole : Span) :
    let assignment := expression (callWithin calls) scope
      (.assign (.index target index span) value whole) s₀
    let reading := expression (callWithin calls) scope (.index target index span) s₁
    ((∃ given after, assignment = .ok given after) ↔ s₃.Writable t k) ∧
    (∀ given after, assignment = .ok given after →
      given = v ∧ s₃.AssignedAt t k v after ∧ ReadAs s₃ t k v after) ∧
    (∀ error after, assignment = .error error after →
      after = s₃ ∧ error.span = span ∧ s₃.Refuses t k error.cause) ∧
    ((∃ found after, reading = .ok found after) ↔ s₃.Readable t k) ∧
    storeAfter reading = s₃ := by
  intro assignment reading
  have hassignment : assignment = (assignElement t k v span >>= fun _ => pure v) s₃ :=
    expression_assign hv ht hk span whole
  have hreading : reading = lift span (s₃.index t k) s₃ := expression_index ht hk span
  -- what the target refers to exists, since the operands keep the store closed
  have hhas : ∀ o ∈ t.objects, s₃.Has o := by
    obtain ⟨hclosed₁, -, hkept₁⟩ := closed_expression hcalls hclosed hscope hv
    have hscope₁ := Option.isSome_iff_exists.1
      (hkept₁ (.scope scope) (Option.isSome_iff_exists.2 hscope))
    obtain ⟨hclosed₂, hhas₂, hkept₂⟩ := closed_expression hcalls hclosed₁ hscope₁ ht
    have hscope₂ := Option.isSome_iff_exists.1
      (hkept₂ (.scope scope) (Option.isSome_iff_exists.2 hscope₁))
    obtain ⟨-, -, hkept₃⟩ := closed_expression hcalls hclosed₂ hscope₂ hk
    exact fun o ho => hkept₃ o (hhas₂ o ho)
  have hreads : ((∃ found after, reading = .ok found after) ↔ s₃.Readable t k) ∧
      storeAfter reading = s₃ := by
    rw [hreading, ← Store.index_eq_ok_iff]
    cases s₃.index t k with
    | ok found => exact ⟨iff_of_true ⟨_, _, rfl⟩ ⟨found, rfl⟩, rfl⟩
    | error cause => exact ⟨iff_of_false (by rintro ⟨_, _, ⟨⟩⟩) (by rintro ⟨_, ⟨⟩⟩), rfl⟩
  rcases s₃.points_or_refuses t k with ⟨place, hplace⟩ | ⟨cause, hcause⟩
  · have hok : assignment = .ok v (s₃.write place v) := by
      rw [hassignment, bind_ok (assignElement_of_ok hplace.place_eq span)]
      rfl
    have hassigned := Store.assignedAt_write hplace (hhas _ (by simp [hplace.objects_eq])) v
    refine ⟨iff_of_true ⟨_, _, hok⟩ (Store.writable_iff.2 ⟨place, hplace⟩), ?_, ?_, hreads⟩
    · intro given after hgiven
      cases hok.symm.trans hgiven
      exact ⟨rfl, hassigned, readAs_of_assignedAt hassigned⟩
    · intro error after herror
      cases hok.symm.trans herror
  · have herror : assignment = .error ⟨cause, span⟩ s₃ := by
      rw [hassignment, bind_error (assignElement_of_error hcause.place_eq span)]
    refine ⟨iff_of_false ?_ (Store.not_writable_iff.2 ⟨cause, hcause⟩), ?_, ?_, hreads⟩
    · rintro ⟨given, after, hgiven⟩
      cases herror.symm.trans hgiven
    · intro given after hgiven
      cases herror.symm.trans hgiven
    · intro error after hfailed
      cases herror.symm.trans hfailed
      exact ⟨rfl, rfl, hcause⟩

/-- The right side of an assignment to an array puts the array into itself: `a[0] = (a[1] = a)`,
where `a` is `[1, 2]`. -/
theorem index_assignment_exact_within_itself :
    let root := Store.empty.addRoot
    let at0 : Span := .point 0
    let a : Expr := .name ⟨"a", at0⟩
    let element (i : Integer) : Expr := .index a (.integer i at0) at0
    let s₀ := storeAfter (node (callWithin 0) root.1
      (.binding ⟨"a", at0⟩ (.array [.integer 1 at0, .integer 2 at0] at0) at0) root.2)
    let s₁ := storeAfter (expression (callWithin 0) root.1 (.assign (element 1) a at0) s₀)
    s₀.Closed ∧ ∃ after, expression (callWithin 0) root.1
        (.assign (element 0) (.assign (element 1) a at0) at0) s₀ = .ok (.array ⟨0⟩) after ∧
      s₁.AssignedAt (.array ⟨0⟩) (.integer 0) (.array ⟨0⟩) after ∧
      after.index (.array ⟨0⟩) (.integer 1) = .ok (.array ⟨0⟩) := by
  intro root at0 a element s₀ s₁
  have hbinding : node (callWithin 0) root.1
      (.binding ⟨"a", at0⟩ (.array [.integer 1 at0, .integer 2 at0] at0) at0) root.2 =
      .ok .null s₀ := rfl
  have hvalue : expression (callWithin 0) root.1 (.assign (element 1) a at0) s₀ =
      .ok (.array ⟨0⟩) s₁ := rfl
  -- the inner assignment has been made before the target is read
  have hlookup : s₁.lookup? root.1 "a" = some (.array ⟨0⟩) := by decide +kernel
  have htarget : expression (callWithin 0) root.1 a s₁ = .ok (.array ⟨0⟩) s₁ := by
    show resolve root.1 ⟨"a", at0⟩ s₁ = _
    rw [resolve, get_bind, hlookup]
    rfl
  have hindex : expression (callWithin 0) root.1 (.integer 0 at0) s₁ = .ok (.integer 0) s₁ := rfl
  have hclosed : s₀.Closed :=
    (closed_node (Nat.zero_le _) Machine.closed_addRoot ⟨_, rfl⟩ hbinding).1
  obtain ⟨hwritable, hassigned, -⟩ := index_assignment_exact (Nat.zero_le _) hclosed ⟨_, rfl⟩
    hvalue htarget hindex at0 at0
  obtain ⟨given, after, hgiven⟩ := hwritable.2 ⟨0, rfl, by decide +kernel⟩
  obtain ⟨rfl, hat, -⟩ := hassigned given after hgiven
  have hother : s₁.equal (.integer 1) (.integer 0) = false := by decide +kernel
  have hread : s₁.index (.array ⟨0⟩) (.integer 1) = .ok (.array ⟨0⟩) := by decide +kernel
  exact ⟨hclosed, after, hgiven, hat, (hat.reads_other _ hother).trans hread⟩

end Eval

end Script
