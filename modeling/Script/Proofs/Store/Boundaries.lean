import Script.Eval
import Script.Proofs.Sequence
import Script.Proofs.Store.Actions

/-!
# Returns and the boundaries that keep them

A return is left pending in some scope of a tree and taken in another. In between anything may
happen, on the same branch or elsewhere. What is pending for a scope is kept in its *boundary*, the
first scope outwards that is no block; so only what is done with scopes of the same boundary counts,
and of that only the last. The boundary of a scope never changes, since neither kinds nor places do.

* `Store.BoundedBy`: the boundary, along the scopes one by one;
* `ScopeAction.LeftPending`: what a sequence of actions left pending, told from the actions alone;
* `ScopeAction.returned?_perform`: what one action does to a pending return;
* `Leads.returned?_iff`: hence what is pending is what the actions left, by induction on them;
* `Leads.returns_respect_boundaries`: what the actions on returns answer and change.
-/

namespace Script

/-! ### Boundaries -/

namespace Store

/-- **A scope is the boundary of a scope**: it is the first one outwards that is no block. -/
inductive BoundedBy (store : Store) : Ref .scope → Ref .scope → Prop
  | itself {ref scope} (h : store.scopes.get? ref = some scope) (hkind : scope.kind ≠ .block) :
      BoundedBy store ref ref
  | outside {ref scope parent b} (h : store.scopes.get? ref = some scope)
      (hkind : scope.kind = .block) (hp : scope.parent = some parent)
      (hb : BoundedBy store parent b) : BoundedBy store ref b

variable {store before after : Store} {ref b : Ref .scope}

theorem boundedBy_boundary (h : store.Shaped) :
    ∀ ref, store.HasScope ref → store.BoundedBy ref (store.boundary ref) := by
  refine h.wellFormed.induction fun ref scope hs ih => ?_
  by_cases hkind : scope.kind = .block
  · obtain ⟨parent, hp⟩ := Option.isSome_iff_exists.1 (h.block_inside hs hkind)
    have hpass : scope.passesReturn = true := by simp [Scope.passesReturn, hkind, hp]
    rw [boundary_of_passes h.wellFormed hs hpass hp]
    exact .outside hs hkind hp (ih parent hp (h.wellFormed.hasScope_parent hs hp))
  · have hpass : scope.passesReturn = false := by simp [Scope.passesReturn, hkind]
    rw [boundary_of_not_passes hs hpass]
    exact .itself hs hkind

namespace BoundedBy

theorem hasScope (h : store.BoundedBy ref b) : store.HasScope ref := by
  cases h with
  | itself h => exact ⟨_, h⟩
  | outside h => exact ⟨_, h⟩

theorem boundary_eq (hw : store.WellFormed) (h : store.BoundedBy ref b) :
    store.boundary ref = b := by
  induction h with
  | itself h hkind => exact boundary_of_not_passes h (by simp [Scope.passesReturn, hkind])
  | outside h hkind hp _ ih =>
    rw [boundary_of_passes hw h (by simp [Scope.passesReturn, hkind, hp]) hp, ih]

end BoundedBy

/-- Every scope has one boundary, and it is where returns are kept. -/
theorem boundedBy_iff (h : store.Shaped) :
    store.BoundedBy ref b ↔ store.HasScope ref ∧ store.boundary ref = b := by
  constructor
  · intro hb
    exact ⟨hb.hasScope, hb.boundary_eq h.wellFormed⟩
  · rintro ⟨href, rfl⟩
    exact boundedBy_boundary h ref href

/-- The boundary of a scope stays the same as the tree grows. -/
theorem Grows.boundedBy_iff (hgrows : before.Grows after) (h : before.Shaped) (h' : after.Shaped)
    (href : before.HasScope ref) : after.BoundedBy ref b ↔ before.BoundedBy ref b := by
  rw [Store.boundedBy_iff h, Store.boundedBy_iff h',
    hgrows.boundary_eq h.wellFormed h'.wellFormed ref href]
  exact and_congr_left' (iff_of_true (hgrows.hasScope href) href)

/-! ### One return changes -/

/-- Only what is pending in a scope changes: it is seen from exactly the scopes that have it for
their boundary. All bindings are as they were, and so are the kinds of scopes, the scopes around
them, and all arrays, maps and functions. -/
structure PendsOnly (b : Ref .scope) (pending : Option Value) (before after : Store) : Prop where
  seen : ∀ t, before.BoundedBy t b → after.pendingReturn? t = pending
  unseen : ∀ t, before.HasScope t → ¬ before.BoundedBy t b →
    after.pendingReturn? t = before.pendingReturn? t
  binding?_eq : ∀ r name, after.binding? r name = before.binding? r name
  unpended : ∀ r, (after.scopes.get? r).map ({ · with returned := none }) =
    (before.scopes.get? r).map ({ · with returned := none })
  arrays : after.arrays = before.arrays
  maps : after.maps = before.maps
  closures : after.closures = before.closures

/-- What is pending in a scope after something was put into the place of another's return. -/
theorem returned?_putReturn (hw : store.WellFormed) (href : store.HasScope ref)
    (pending : Option Value) (b : Ref .scope) :
    (store.putReturn ref pending).returned? b =
      if store.boundary ref = b then pending else store.returned? b := by
  obtain ⟨scope, hscope⟩ := hasScope_boundary hw ref href
  rw [returned?, putReturn, Heap.get?_modify]
  split
  · rw [hscope]
    rfl
  · rfl

theorem pendsOnly_putReturn (h : store.Shaped) (hb : store.BoundedBy ref b)
    (pending : Option Value) : PendsOnly b pending store (store.putReturn ref pending) := by
  have hw := h.wellFormed
  have href := hb.hasScope
  have hboundary := hb.boundary_eq hw
  have hpending (t : Ref .scope) (ht : store.HasScope t) :
      (store.putReturn ref pending).pendingReturn? t =
        if b = store.boundary t then pending else store.pendingReturn? t := by
    have hsame : (store.putReturn ref pending).boundary t = store.boundary t :=
      (grows_putReturn ref pending).boundary_eq hw (wellFormed_putReturn hw ref pending) t ht
    calc (store.putReturn ref pending).pendingReturn? t
        = (store.putReturn ref pending).returned? (store.boundary t) := by rw [← hsame]; rfl
      _ = if b = store.boundary t then pending else store.returned? (store.boundary t) := by
        rw [returned?_putReturn hw href, hboundary]
  refine ⟨fun t ht => ?_, fun t ht hne => ?_, fun r name => ?_, fun r => ?_, rfl, rfl, rfl⟩
  · rw [hpending t ht.hasScope, if_pos (ht.boundary_eq hw).symm]
  · rw [hpending t ht, if_neg fun heq => hne ((boundedBy_iff h).2 ⟨ht, heq.symm⟩)]
  · refine Heap.bind_get?_modify (fun scope => ?_) (store.boundary ref) r
    rfl
  · refine Heap.map_get?_modify (fun scope => ?_) (store.boundary ref) r
    rfl

/-- Evaluation takes a return in one go: it gives what is pending, and then nothing is. -/
theorem takeReturn_eq (store : Store) (ref : Ref .scope) :
    Eval.takeReturn ref store = .ok (store.pendingReturn? ref) (store.clearReturn ref) := by
  rw [Eval.takeReturn, get_bind]
  cases hpending : store.pendingReturn? ref with
  | some value => rfl
  | none =>
    rw [clearReturn_eq_self hpending]
    rfl

end Store

/-! ### What actions leave pending -/

namespace ScopeAction

/-- An action concerns a return if it leaves or takes one in a scope of the boundary. -/
def Concerns (store : Store) (b : Ref .scope) : ScopeAction → Prop
  | setReturn ref _ => store.BoundedBy ref b
  | takeReturn ref => store.BoundedBy ref b
  | _ => False

/-- A value is left pending by actions: it was left in a scope of the boundary, and afterwards
no other was left, or any taken, in a scope of that boundary. -/
def LeftPending (store : Store) (b : Ref .scope) (log : List ScopeAction) (value : Value) : Prop :=
  ∃ earlier ref later, log = earlier ++ setReturn ref value :: later ∧ store.BoundedBy ref b ∧
    ∀ a ∈ later, ¬ a.Concerns store b

variable {store before after : Store} {b : Ref .scope} {log : List ScopeAction}
  {a : ScopeAction} {value : Value}

theorem concerns_iff_of_grows (hgrows : before.Grows after) (h : before.Shaped) (h' : after.Shaped)
    (ha : ∀ ref ∈ a.scope?, before.HasScope ref) : a.Concerns after b ↔ a.Concerns before b := by
  cases a with
  | setReturn ref _ => exact hgrows.boundedBy_iff h h' (ha ref rfl)
  | takeReturn ref => exact hgrows.boundedBy_iff h h' (ha ref rfl)
  | _ => exact Iff.rfl

/-- What actions left pending stays so told as the tree grows. -/
theorem leftPending_iff_of_grows (hgrows : before.Grows after) (h : before.Shaped)
    (h' : after.Shaped) (hlog : ∀ a ∈ log, ∀ ref ∈ a.scope?, before.HasScope ref) :
    LeftPending after b log value ↔ LeftPending before b log value := by
  refine exists_congr fun earlier => exists_congr fun ref => exists_congr fun later =>
    and_congr_right fun heq => and_congr ?_ ?_
  · exact hgrows.boundedBy_iff h h' (hlog (setReturn ref value) (by simp [heq]) ref rfl)
  · refine forall_congr' fun a => forall_congr' fun ha => not_congr ?_
    exact concerns_iff_of_grows hgrows h h' (hlog a (by simp [heq, ha]))

/-- The last action decides: it leaves the value itself, or it does not concern the return. -/
theorem leftPending_snoc :
    LeftPending store b (log ++ [a]) value ↔
      (∃ ref, a = setReturn ref value ∧ store.BoundedBy ref b) ∨
        ¬ a.Concerns store b ∧ LeftPending store b log value := by
  constructor
  · rintro ⟨earlier, ref, later, heq, hb, hlater⟩
    rcases List.eq_nil_or_concat later with rfl | ⟨later, last, rfl⟩
    · obtain ⟨-, hlast⟩ := List.append_inj' heq rfl
      exact .inl ⟨ref, List.singleton_inj.1 hlast, hb⟩
    · rw [List.concat_eq_append, ← List.cons_append, ← List.append_assoc] at heq
      obtain ⟨rfl, hlast⟩ := List.append_inj' heq rfl
      obtain rfl := List.singleton_inj.1 hlast
      exact .inr ⟨hlater a (by simp), earlier, ref, later, rfl, hb,
        fun other hother => hlater other (by simp [hother])⟩
  · rintro (⟨ref, rfl, hb⟩ | ⟨hnot, earlier, ref, later, rfl, hb, hlater⟩)
    · exact ⟨log, ref, [], rfl, hb, by simp⟩
    · refine ⟨earlier, ref, later ++ [a], by simp, hb, fun other hother => ?_⟩
      rcases List.mem_append.1 hother with hother | hother
      · exact hlater other hother
      · rwa [List.mem_singleton.1 hother]

/-- An action that concerns no return keeps what is pending. -/
theorem returned?_perform_of_not_concerns (h : store.Shaped) (ha : a.Applies store)
    (hnot : ¬ a.Concerns store b) : (a.perform store).2.returned? b = store.returned? b := by
  have hw := h.wellFormed
  -- A return is kept at the boundary of the scope, so one in another boundary leaves `b` alone.
  have hput (ref : Ref .scope) (href : store.HasScope ref) (hb : ¬ store.BoundedBy ref b)
      (pending : Option Value) : (store.putReturn ref pending).returned? b = store.returned? b := by
    rw [Store.returned?_putReturn hw href, if_neg]
    exact fun heq => hb ((Store.boundedBy_iff h).2 ⟨href, heq⟩)
  cases a with
  | root => exact (Store.keepsReturns_addScope hw .root (by rintro p ⟨⟩)).returned?_eq b
  | enclose kind parent =>
    refine (Store.keepsReturns_addScope hw kind ?_).returned?_eq b
    rintro p ⟨⟩
    exact ha parent rfl
  | define ref name value => exact (Store.keepsReturns_define hw ref name value).returned?_eq b
  | assign ref name value =>
    rw [Store.perform_assign]
    cases store.owner? ref name with
    | some owner => exact (Store.keepsReturns_define hw owner name value).returned?_eq b
    | none => rfl
  | setReturn ref value => exact hput ref (ha ref rfl) hnot (some value)
  | takeReturn ref => exact hput ref (ha ref rfl) hnot none
  | get => rfl
  | isReturning => rfl

/-- **What one action does to a pending return.** -/
theorem returned?_perform (h : store.Shaped) (ha : a.Applies store) :
    (a.perform store).2.returned? b = some value ↔
      (∃ ref, a = setReturn ref value ∧ store.BoundedBy ref b) ∨
        ¬ a.Concerns store b ∧ store.returned? b = some value := by
  by_cases hconcerns : a.Concerns store b
  · simp only [hconcerns, not_true_eq_false, false_and, or_false]
    cases a with
    | setReturn ref left =>
      have href : store.BoundedBy ref b := hconcerns
      have hput : (store.setReturn ref left).returned? b = some left := by
        rw [Store.setReturn, Store.returned?_putReturn h.wellFormed href.hasScope,
          if_pos (href.boundary_eq h.wellFormed)]
      rw [perform, hput, Option.some_inj]
      constructor
      · rintro rfl
        exact ⟨ref, rfl, href⟩
      · rintro ⟨_, ⟨⟩, -⟩
        rfl
    | takeReturn ref =>
      have href : store.BoundedBy ref b := hconcerns
      have hput : (store.clearReturn ref).returned? b = none := by
        rw [Store.clearReturn, Store.returned?_putReturn h.wellFormed href.hasScope,
          if_pos (href.boundary_eq h.wellFormed)]
      rw [perform, hput]
      simp
    -- Nothing but a return left or taken concerns a boundary.
    | _ => exact hconcerns.elim
  · rw [returned?_perform_of_not_concerns h ha hconcerns]
    constructor
    · exact fun hreturned => .inr ⟨hconcerns, hreturned⟩
    · rintro (⟨ref, rfl, hb⟩ | ⟨-, hreturned⟩)
      · exact absurd hb hconcerns
      · exact hreturned

end ScopeAction

/-! ### On every tree of scopes -/

namespace Leads

open ScopeAction Store

variable {log : List ScopeAction} {store : Store} {ref : Ref .scope}

/-- **What is pending in a boundary is what the actions left pending.** The induction is on the
actions. -/
theorem returned?_iff (h : Leads log store) (b : Ref .scope) (value : Value) :
    store.returned? b = some value ↔ LeftPending store b log value := by
  induction h with
  | nil =>
    have hnone : Store.empty.returned? b = none := quiet_iff.1 atRest_empty.quiet b
    simp [hnone, LeftPending]
  | @snoc log store hlog a ha ih =>
    obtain ⟨hgrows, hshaped⟩ := grows_perform hlog.shaped ha
    have hscopes (other : ScopeAction) (hother : other ∈ log ++ [a]) :
        ∀ ref ∈ other.scope?, store.HasScope ref := by
      rcases List.mem_append.1 hother with hother | hother
      · exact fun ref href => hlog.hasScope hother href
      · rw [List.mem_singleton.1 hother]
        exact ha
    rw [returned?_perform hlog.shaped ha, ih, ← leftPending_snoc]
    exact (leftPending_iff_of_grows hgrows hlog.shaped hshaped hscopes).symm

/-- **Returns respect boundaries on every tree of scopes.** Every scope has one boundary. A return
is pending for the scope exactly if the last one that was left in a scope of that boundary has not
been taken in one since. Taking gives its value and clears it for all scopes of that boundary, and
leaving a value shows it to all of them. For the scopes of another boundary nothing changes, and no
binding does. -/
theorem returns_respect_boundaries (h : Leads log store) (href : store.HasScope ref) :
    ∃ b, (∀ b', store.BoundedBy ref b' ↔ b' = b) ∧
      (∃ pending, (isReturning ref).perform store = (.returning pending, store) ∧
        (pending = true ↔ ∃ value, LeftPending store b log value)) ∧
      (∃ taken after, (takeReturn ref).perform store = (.found taken, after) ∧
        Eval.takeReturn ref store = .ok taken after ∧
        (∀ value, taken = some value ↔ LeftPending store b log value) ∧
        PendsOnly b none store after) ∧
      ∀ value, ∃ after, (setReturn ref value).perform store = (.done, after) ∧
        PendsOnly b (some value) store after := by
  have hb : store.BoundedBy ref (store.boundary ref) := boundedBy_boundary h.shaped ref href
  have hpending (value : Value) : store.pendingReturn? ref = some value ↔
      LeftPending store (store.boundary ref) log value := h.returned?_iff _ value
  refine ⟨store.boundary ref, fun b' => ?_, ⟨_, rfl, ?_⟩,
    ⟨_, _, rfl, takeReturn_eq store ref, hpending, ?_⟩, fun value => ?_⟩
  · rw [boundedBy_iff h.shaped, and_iff_right href, eq_comm]
  · rw [Store.isReturning, Option.isSome_iff_exists]
    exact exists_congr hpending
  · exact pendsOnly_putReturn h.shaped hb none
  · exact ⟨_, rfl, pendsOnly_putReturn h.shaped hb (some value)⟩

/-- A return that is left in a block inside a block of a function is taken in the function's scope.
Another one, in a root inside the inner block, stays. -/
theorem returns_respect_boundaries_nested :
    let log := [root, enclose .function ⟨0⟩, enclose .block ⟨1⟩, enclose .block ⟨2⟩,
      enclose .root ⟨3⟩, setReturn ⟨3⟩ (.integer 30), setReturn ⟨4⟩ (.integer 7)]
    let store := performAll .empty log
    Leads log store ∧ store.HasScope ⟨1⟩ ∧ ∃ after,
      (takeReturn ⟨1⟩).perform store = (.found (some (.integer 30)), after) ∧
      after.pendingReturn? ⟨3⟩ = none ∧ after.pendingReturn? ⟨4⟩ = some (.integer 7) := by
  intro log store
  have hlog : Leads log store := of_allApply (by decide)
  have hscope : store.HasScope ⟨1⟩ := ⟨_, rfl⟩
  -- Blocks pass a return on, so both stand within the boundary of the function.
  have hinner : store.BoundedBy ⟨3⟩ ⟨1⟩ :=
    .outside rfl rfl rfl (.outside rfl rfl rfl (.itself rfl (by decide)))
  have hother : ¬ store.BoundedBy ⟨4⟩ ⟨1⟩ := fun h =>
    absurd (h.boundary_eq hlog.shaped.wellFormed) (by decide)
  obtain ⟨b, hb, -, ⟨taken, after, hperform, -, htaken, hafter⟩, -⟩ :=
    returns_respect_boundaries hlog hscope
  obtain rfl := (hb ⟨1⟩).1 (.itself rfl (by decide))
  have hleft : LeftPending store ⟨1⟩ log (.integer 30) := by
    refine ⟨[root, enclose .function ⟨0⟩, enclose .block ⟨1⟩, enclose .block ⟨2⟩,
      enclose .root ⟨3⟩], ⟨3⟩, [setReturn ⟨4⟩ (.integer 7)], rfl, hinner, fun a ha => ?_⟩
    obtain rfl := List.mem_singleton.1 ha
    exact hother
  obtain rfl := (htaken _).2 hleft
  refine ⟨hlog, hscope, after, hperform, hafter.seen ⟨3⟩ hinner, ?_⟩
  exact (hafter.unseen ⟨4⟩ ⟨_, rfl⟩ hother).trans rfl

end Leads

end Script
