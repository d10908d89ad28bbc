import Script.Proofs.Store.Returns

/-!
# Changes that leave pending returns alone

A change *keeps the returns* of a store if afterwards in every scope the same is pending as before,
and nothing in a new one. Other than `Settles` this says nothing of what is pending: there may be
returns that nobody waits for any more. What is pending for a scope stays so as well
(`KeepsReturns.pendingReturn?_eq`), and a store where nothing is pending stays one
(`KeepsReturns.quiet`).
-/

namespace Script.Store

/-- The value that is pending in a scope itself. -/
def returned? (store : Store) (ref : Ref .scope) : Option Value :=
  (store.scopes.get? ref).bind (·.returned)

/-- A change that keeps all pending returns, of a store that stays well formed and grows. -/
structure KeepsReturns (before after : Store) : Prop where
  wellFormed : after.WellFormed
  grows : before.Grows after
  returned?_eq : ∀ ref, after.returned? ref = before.returned? ref

theorem quiet_iff {store : Store} : store.Quiet ↔ ∀ ref, store.returned? ref = none := by
  constructor
  · intro h ref
    cases hscope : store.scopes.get? ref with
    | none => rw [returned?, hscope]; rfl
    | some scope =>
      rw [returned?, hscope]
      exact h ref scope hscope
  · intro h ref scope hscope
    have hnone := h ref
    rw [returned?, hscope] at hnone
    exact hnone

namespace KeepsReturns

variable {a b c : Store}

theorem refl (h : a.WellFormed) : a.KeepsReturns a :=
  ⟨h, .refl a, fun _ => rfl⟩

theorem trans (hab : a.KeepsReturns b) (hbc : b.KeepsReturns c) : a.KeepsReturns c where
  wellFormed := hbc.wellFormed
  grows := hab.grows.trans hbc.grows
  returned?_eq ref := (hbc.returned?_eq ref).trans (hab.returned?_eq ref)

theorem quiet (h : a.KeepsReturns b) (ha : a.Quiet) : b.Quiet :=
  quiet_iff.2 fun ref => (h.returned?_eq ref).trans (quiet_iff.1 ha ref)

theorem atRest (h : a.KeepsReturns b) (ha : a.AtRest) : b.AtRest :=
  ⟨h.wellFormed, h.quiet ha.quiet⟩

/-- **What is pending for a scope stays pending.** -/
theorem pendingReturn?_eq (h : a.KeepsReturns b) (ha : a.WellFormed) {ref : Ref .scope}
    (hs : a.HasScope ref) : b.pendingReturn? ref = a.pendingReturn? ref := by
  have hboundary := h.grows.boundary_eq ha h.wellFormed ref hs
  calc b.pendingReturn? ref = b.returned? (b.boundary ref) := rfl
    _ = a.returned? (a.boundary ref) := by rw [hboundary, h.returned?_eq]
    _ = a.pendingReturn? ref := rfl

end KeepsReturns

/-! ### What keeps the pending returns -/

section KeepsReturns

variable {store : Store} (h : store.WellFormed)
include h

theorem keepsReturns_of_eq {after : Store} (hs : after.scopes = store.scopes)
    (hc : after.closures = store.closures) : store.KeepsReturns after where
  wellFormed := wellFormed_of_eq h hs hc
  grows := .of_scopes_eq hs
  returned?_eq ref := by rw [returned?, returned?, hs]

theorem keepsReturns_addArray (elements : List Value) :
    store.KeepsReturns (store.addArray elements).2 :=
  keepsReturns_of_eq h rfl rfl

theorem keepsReturns_addMap (table : Table) : store.KeepsReturns (store.addMap table).2 :=
  keepsReturns_of_eq h rfl rfl

theorem keepsReturns_write (place : Place) (value : Value) :
    store.KeepsReturns (store.write place value) := by
  cases place <;> exact keepsReturns_of_eq h rfl rfl

theorem keepsReturns_addClosure {closure : Closure} (hs : store.HasScope closure.scope) :
    store.KeepsReturns (store.addClosure closure).2 where
  wellFormed := wellFormed_addClosure h hs
  grows := .of_scopes_eq rfl
  returned?_eq _ := rfl

theorem keepsReturns_define (ref : Ref .scope) (name : String) (value : Value) :
    store.KeepsReturns (store.define ref name value) where
  wellFormed := wellFormed_modify h ref (fun _ => rfl) fun _ => rfl
  grows := grows_modify ref (fun _ => rfl) fun _ => rfl
  returned?_eq other := by
    refine Heap.bind_get?_modify (fun scope => ?_) ref other
    rfl

theorem keepsReturns_addScope (kind : ScopeKind) {parent : Option (Ref .scope)}
    (hp : ∀ p, parent = some p → store.HasScope p) :
    store.KeepsReturns (store.addScope kind parent).2 where
  wellFormed := wellFormed_addScope h kind hp
  grows := grows_addScope kind parent
  returned?_eq ref := by
    rw [returned?, get?_addScope, returned?]
    split
    · -- the new scope was not there before
      next heq =>
      have hnone : store.scopes.get? ref = none := by
        simp [heq, Heap.get?, Heap.fresh]
      rw [hnone]
      rfl
    · rfl

end KeepsReturns

end Script.Store
