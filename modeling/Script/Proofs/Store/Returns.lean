import Script.Operation
import Script.Proofs.Store.Scopes

/-!
# Stores at rest

A store is *at rest* if it is well formed and no return is pending in it. Everything that evaluation
does to a store except leaving a return pending keeps it at rest and lets it grow (`Settles`). A
return that is left pending is seen by exactly the scopes of its boundary and can be taken back:

* `setReturn_eq_of_block`: in a block it makes no difference whether a return is left pending there
  or in the scope around;
* `pendingReturn?_setReturn`, `clearReturn_setReturn`: what was left pending is found, and when it
  is taken the store is as it was.
-/

namespace Script

theorem Heap.ext_get? {kind : ObjectKind} {α : Type} {a b : Heap kind α}
    (h : ∀ ref, a.get? ref = b.get? ref) : a = b := by
  obtain ⟨as⟩ := a
  obtain ⟨bs⟩ := b
  congr 1
  exact Array.ext_getElem? fun i => h ⟨i⟩

/-- What a change leaves as it is is the same of every object. -/
theorem Heap.bind_get?_modify {kind : ObjectKind} {α β : Type} {heap : Heap kind α} {f : α → α}
    {g : α → Option β} (h : ∀ x, g (f x) = g x) (ref other : Ref kind) :
    ((heap.modify ref f).get? other).bind g = (heap.get? other).bind g := by
  rw [Heap.get?_modify]
  split
  · next heq =>
    have hsame : g ∘ f = g := funext h
    rw [heq, Option.bind_map, hsame]
  · rfl

theorem Heap.map_get?_modify {kind : ObjectKind} {α β : Type} {heap : Heap kind α} {f : α → α}
    {g : α → β} (h : ∀ x, g (f x) = g x) (ref other : Ref kind) :
    ((heap.modify ref f).get? other).map g = (heap.get? other).map g := by
  rw [Option.map_eq_bind, Option.map_eq_bind]
  exact Heap.bind_get?_modify (g := some ∘ g) (fun x => congrArg some (h x)) ref other

namespace Store

/-- A store in which no return is pending. -/
def Quiet (store : Store) : Prop :=
  ∀ ref scope, store.scopes.get? ref = some scope → scope.returned = none

/-- A store at rest: its links lead somewhere, and no return is pending. -/
structure AtRest (store : Store) : Prop where
  wellFormed : store.WellFormed
  quiet : store.Quiet

/-- **What evaluation does to a store at rest**: it stays at rest and grows. -/
structure Settles (before after : Store) : Prop where
  atRest : after.AtRest
  grows : before.Grows after

theorem atRest_empty : empty.AtRest where
  wellFormed := wellFormed_empty
  quiet _ _ h := by simp [empty, EmptyCollection.emptyCollection, Heap.empty, Heap.get?] at h

namespace Settles

variable {a b c : Store}

theorem refl (h : a.AtRest) : a.Settles a :=
  ⟨h, .refl a⟩

theorem trans (hab : a.Settles b) (hbc : b.Settles c) : a.Settles c :=
  ⟨hbc.atRest, hab.grows.trans hbc.grows⟩

end Settles

/-! ### What keeps a store at rest -/

section Settles

variable {store : Store}

/-- New contents of arrays and maps do not touch a scope or a function. -/
theorem wellFormed_of_eq (h : store.WellFormed) {after : Store} (hs : after.scopes = store.scopes)
    (hc : after.closures = store.closures) : after.WellFormed where
  parent_lt h' := h.parent_lt (hs ▸ h')
  closure_scope h' := by
    obtain ⟨scope, hscope⟩ := h.closure_scope (hc ▸ h')
    exact ⟨scope, hs ▸ hscope⟩

theorem settles_of_eq (h : store.AtRest) {after : Store} (hs : after.scopes = store.scopes)
    (hc : after.closures = store.closures) : store.Settles after where
  atRest :=
    { wellFormed := wellFormed_of_eq h.wellFormed hs hc
      quiet := fun ref scope h' => h.quiet ref scope (hs ▸ h') }
  grows := .of_scopes_eq hs

theorem settles_addArray (h : store.AtRest) (elements : List Value) :
    store.Settles (store.addArray elements).2 :=
  settles_of_eq h rfl rfl

theorem settles_addMap (h : store.AtRest) (table : Table) :
    store.Settles (store.addMap table).2 :=
  settles_of_eq h rfl rfl

theorem settles_write (h : store.AtRest) (place : Place) (value : Value) :
    store.Settles (store.write place value) := by
  cases place <;> exact settles_of_eq h rfl rfl

theorem wellFormed_addClosure (h : store.WellFormed) {closure : Closure}
    (hs : store.HasScope closure.scope) : (store.addClosure closure).2.WellFormed where
  parent_lt := h.parent_lt
  closure_scope := by
    intro ref closure' h'
    simp only [addClosure, Heap.get?_alloc] at h'
    split at h'
    · obtain rfl := Option.some.inj h'
      exact hs
    · exact h.closure_scope h'

theorem settles_addClosure (h : store.AtRest) {closure : Closure}
    (hs : store.HasScope closure.scope) : store.Settles (store.addClosure closure).2 where
  atRest := ⟨wellFormed_addClosure h.wellFormed hs, h.quiet⟩
  grows := .of_scopes_eq rfl

/-- A scope that changes without changing its kind or the scope around it lets the store grow. -/
theorem grows_modify (ref : Ref .scope) {f : Scope → Scope} (hkind : ∀ s, (f s).kind = s.kind)
    (hparent : ∀ s, (f s).parent = s.parent) :
    store.Grows { store with scopes := store.scopes.modify ref f } := by
  intro other scope h
  by_cases heq : ref = other
  · refine ⟨f scope, ?_, hkind scope, hparent scope⟩
    rw [Heap.get?_modify, if_pos heq, heq, h]
    rfl
  · refine ⟨scope, ?_, rfl, rfl⟩
    rw [Heap.get?_modify, if_neg heq, h]

theorem wellFormed_modify (h : store.WellFormed) (ref : Ref .scope) {f : Scope → Scope}
    (hkind : ∀ s, (f s).kind = s.kind) (hparent : ∀ s, (f s).parent = s.parent) :
    WellFormed { store with scopes := store.scopes.modify ref f } where
  parent_lt := by
    intro other scope parent h' hp
    rw [Heap.get?_modify] at h'
    split at h'
    · next heq =>
      obtain ⟨scope', hs, rfl⟩ := Option.map_eq_some_iff.1 h'
      rw [hparent] at hp
      exact heq ▸ h.parent_lt hs hp
    · exact h.parent_lt h' hp
  closure_scope h' := (grows_modify ref hkind hparent).hasScope (h.closure_scope h')

theorem settles_define (h : store.AtRest) (ref : Ref .scope) (name : String) (value : Value) :
    store.Settles (store.define ref name value) where
  atRest :=
    { wellFormed := wellFormed_modify h.wellFormed ref (fun _ => rfl) fun _ => rfl
      quiet := by
        intro other scope h'
        simp only [define, Heap.get?_modify] at h'
        split at h'
        · obtain ⟨scope', hs, rfl⟩ := Option.map_eq_some_iff.1 h'
          exact h.quiet ref scope' hs
        · exact h.quiet other scope h' }
  grows := grows_modify ref (fun _ => rfl) fun _ => rfl

theorem get?_addScope (kind : ScopeKind) (parent : Option (Ref .scope)) (ref : Ref .scope) :
    (store.addScope kind parent).2.scopes.get? ref =
      if ref = store.scopes.fresh then some ⟨kind, parent, ∅, none⟩ else store.scopes.get? ref :=
  Heap.get?_alloc ..

theorem hasScope_addScope (kind : ScopeKind) (parent : Option (Ref .scope)) :
    (store.addScope kind parent).2.HasScope (store.addScope kind parent).1 :=
  ⟨_, by rw [get?_addScope]; exact if_pos rfl⟩

theorem ne_fresh_of_hasScope {ref : Ref .scope} (h : store.HasScope ref) :
    ref ≠ store.scopes.fresh := by
  rintro rfl
  exact absurd (hasScope_iff.1 h) (Nat.lt_irrefl _)

theorem grows_addScope (kind : ScopeKind) (parent : Option (Ref .scope)) :
    store.Grows (store.addScope kind parent).2 := by
  intro ref scope h
  refine ⟨scope, ?_, rfl, rfl⟩
  rw [get?_addScope, if_neg (ne_fresh_of_hasScope ⟨scope, h⟩), h]

theorem wellFormed_addScope (h : store.WellFormed) (kind : ScopeKind)
    {parent : Option (Ref .scope)} (hp : ∀ p, parent = some p → store.HasScope p) :
    (store.addScope kind parent).2.WellFormed where
  parent_lt := by
    intro ref scope p h' hp'
    rw [get?_addScope] at h'
    split at h'
    · next heq =>
      obtain rfl := Option.some.inj h'
      rw [heq]
      exact hasScope_iff.1 (hp p hp')
    · exact h.parent_lt h' hp'
  closure_scope h' := (grows_addScope kind parent).hasScope (h.closure_scope h')

theorem settles_addScope (h : store.AtRest) (kind : ScopeKind) {parent : Option (Ref .scope)}
    (hp : ∀ p, parent = some p → store.HasScope p) :
    store.Settles (store.addScope kind parent).2 where
  atRest :=
    { wellFormed := wellFormed_addScope h.wellFormed kind hp
      quiet := by
        intro ref scope h'
        rw [get?_addScope] at h'
        split at h'
        · obtain rfl := Option.some.inj h'
          rfl
        · exact h.quiet ref scope h' }
  grows := grows_addScope kind parent

end Settles

/-! ### Leaving a return pending, and taking it back -/

section Pending

variable {store : Store} {ref : Ref .scope}

theorem grows_putReturn (ref : Ref .scope) (value : Option Value) :
    store.Grows (store.putReturn ref value) :=
  grows_modify _ (fun _ => rfl) fun _ => rfl

theorem wellFormed_putReturn (h : store.WellFormed) (ref : Ref .scope) (value : Option Value) :
    (store.putReturn ref value).WellFormed :=
  wellFormed_modify h _ (fun _ => rfl) fun _ => rfl

theorem boundary_putReturn (h : store.WellFormed) (hs : store.HasScope ref)
    (value : Option Value) : (store.putReturn ref value).boundary ref = store.boundary ref :=
  (grows_putReturn ref value).boundary_eq h (wellFormed_putReturn h ref value) ref hs

/-- Nothing is pending in a store at rest. -/
theorem pendingReturn?_eq_none (h : store.Quiet) (ref : Ref .scope) :
    store.pendingReturn? ref = none := by
  rw [pendingReturn?]
  cases hs : store.scopes.get? (store.boundary ref) with
  | none => rfl
  | some scope => exact h _ scope hs

/-- What is put into the place of the pending return is found there. -/
theorem pendingReturn?_putReturn (h : store.WellFormed) (hs : store.HasScope ref)
    (value : Option Value) : (store.putReturn ref value).pendingReturn? ref = value := by
  obtain ⟨scope, hscope⟩ := hasScope_boundary h ref hs
  rw [pendingReturn?, boundary_putReturn h hs, putReturn, Heap.get?_modify, if_pos rfl, hscope]
  rfl

theorem pendingReturn?_setReturn (h : store.WellFormed) (hs : store.HasScope ref)
    (value : Value) : (store.setReturn ref value).pendingReturn? ref = some value :=
  pendingReturn?_putReturn h hs (some value)

/-- Where nothing is pending, there is nothing to take. -/
theorem clearReturn_eq_self (hnone : store.pendingReturn? ref = none) :
    store.clearReturn ref = store := by
  have hscopes : (store.clearReturn ref).scopes = store.scopes := by
    refine Heap.ext_get? fun other => ?_
    rw [clearReturn, putReturn, Heap.get?_modify]
    split
    · next heq =>
      rw [pendingReturn?, heq] at hnone
      rw [heq]
      cases hscope : store.scopes.get? other with
      | none => rfl
      | some scope =>
        rw [hscope] at hnone
        obtain ⟨kind, parent, bindings, returned⟩ := scope
        obtain rfl : returned = none := hnone
        rfl
    · rfl
  calc store.clearReturn ref = { store with scopes := (store.clearReturn ref).scopes } := rfl
    _ = store := by rw [hscopes]

/-- Of two values put into the place of the pending return, the second stays. -/
theorem putReturn_putReturn (h : store.WellFormed) (hs : store.HasScope ref)
    (first second : Option Value) :
    (store.putReturn ref first).putReturn ref second = store.putReturn ref second := by
  have hscopes : ((store.putReturn ref first).putReturn ref second).scopes =
      (store.putReturn ref second).scopes := by
    refine Heap.ext_get? fun other => ?_
    rw [putReturn, boundary_putReturn h hs, putReturn, putReturn, Heap.get?_modify,
      Heap.get?_modify]
    split
    · next heq =>
      rw [Heap.get?_modify, if_pos rfl, if_pos heq, heq]
      cases store.scopes.get? other <;> rfl
    · next hne => rw [Heap.get?_modify, if_neg hne, Heap.get?_modify, if_neg hne]
  calc (store.putReturn ref first).putReturn ref second
      = { store with scopes := ((store.putReturn ref first).putReturn ref second).scopes } := rfl
    _ = { store with scopes := (store.putReturn ref second).scopes } := by rw [hscopes]

/-- A return that is taken back leaves no trace, if nothing was pending before it. -/
theorem clearReturn_setReturn_of_none (h : store.WellFormed) (hs : store.HasScope ref)
    (hnone : store.pendingReturn? ref = none) (value : Value) :
    (store.setReturn ref value).clearReturn ref = store :=
  (putReturn_putReturn h hs (some value) none).trans (clearReturn_eq_self hnone)

theorem clearReturn_setReturn (h : store.AtRest) (hs : store.HasScope ref) (value : Value) :
    (store.setReturn ref value).clearReturn ref = store :=
  clearReturn_setReturn_of_none h.wellFormed hs (pendingReturn?_eq_none h.quiet ref) value

/-- Scopes of one boundary share the place of the pending return. -/
theorem setReturn_eq_of_boundary {other : Ref .scope}
    (h : store.boundary other = store.boundary ref) (value : Value) :
    store.setReturn other value = store.setReturn ref value := by
  rw [setReturn, setReturn, putReturn, putReturn, h]

/-- **A block leaves returns to the scope around it.** -/
theorem setReturn_eq_of_block (h : store.WellFormed) {block : Ref .scope} {scope : Scope}
    (hs : store.scopes.get? block = some scope) (hkind : scope.kind = .block)
    (hparent : scope.parent = some ref) (value : Value) :
    store.setReturn block value = store.setReturn ref value := by
  have hpass : scope.passesReturn = true := by
    rw [Scope.passesReturn, hkind, hparent]
    rfl
  exact setReturn_eq_of_boundary (boundary_of_passes h hs hpass hparent) value

end Pending

end Store

end Script
