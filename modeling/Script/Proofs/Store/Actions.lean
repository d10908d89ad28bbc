import Script.Proofs.Store.KeepsReturns

/-!
# Trees of scopes

Scopes are made one after another, each a root or inside a scope that is there already, and of any
kind. Meanwhile names are bound and looked up in them, and returns are left and taken, on one branch
or the other in any order. All of this is a sequence of actions, and what holds of every tree of
scopes is shown by induction on the actions that led to it.

A tree never loses a scope, and no scope changes its kind or its place. So what was said of a scope
at the time of some action can be said of it ever after.

* `ScopeAction.perform`: what an action answers, and the store after it;
* `Leads`: the stores that actions lead to;
* `Leads.shaped`: in them the scopes around a scope stand before it, and every block is inside one.
-/

namespace Script

/-! ### Actions -/

/-- What can be done with scopes. -/
inductive ScopeAction where
  | root
  | enclose (kind : ScopeKind) (parent : Ref .scope)
  | get (ref : Ref .scope) (name : String)
  | define (ref : Ref .scope) (name : String) (value : Value)
  | assign (ref : Ref .scope) (name : String) (value : Value)
  | setReturn (ref : Ref .scope) (value : Value)
  | isReturning (ref : Ref .scope)
  | takeReturn (ref : Ref .scope)

/-- What an action answers. A value that could not be assigned is handed back. -/
inductive ScopeAnswer where
  | made (ref : Ref .scope)
  | done
  | found (value : Option Value)
  | handedBack (value : Value)
  | returning (pending : Bool)
deriving DecidableEq

namespace ScopeAction

/-- The scope that an action is done with. It has to be there before. -/
def scope? : ScopeAction → Option (Ref .scope)
  | root => none
  | enclose _ parent => some parent
  | get ref _ => some ref
  | define ref _ _ => some ref
  | assign ref _ _ => some ref
  | setReturn ref _ => some ref
  | isReturning ref => some ref
  | takeReturn ref => some ref

/-- What an action answers, and the store after it. -/
def perform (store : Store) : ScopeAction → ScopeAnswer × Store
  | root => (.made store.addRoot.1, store.addRoot.2)
  | enclose kind parent =>
    (.made (store.addScope kind (some parent)).1, (store.addScope kind (some parent)).2)
  | get ref name => (.found (store.lookup? ref name), store)
  | define ref name value => (.done, store.define ref name value)
  | assign ref name value =>
    match store.assign? ref name value with
    | some after => (.done, after)
    | none => (.handedBack value, store)
  | setReturn ref value => (.done, store.setReturn ref value)
  | isReturning ref => (.returning (store.isReturning ref), store)
  | takeReturn ref => (.found (store.pendingReturn? ref), store.clearReturn ref)

instance (store : Store) (ref : Ref .scope) : Decidable (store.HasScope ref) :=
  decidable_of_iff ((store.scopes.get? ref).isSome = true) Option.isSome_iff_exists

/-- An action can be performed if the scope that it is done with is there. -/
def Applies (store : Store) (a : ScopeAction) : Prop :=
  ∀ ref ∈ a.scope?, store.HasScope ref

instance (store : Store) (a : ScopeAction) : Decidable (a.Applies store) :=
  inferInstanceAs (Decidable (∀ ref ∈ a.scope?, store.HasScope ref))

/-- Actions can be performed one after another. -/
def AllApply (store : Store) : List ScopeAction → Prop
  | [] => True
  | a :: rest => a.Applies store ∧ AllApply (a.perform store).2 rest

instance decidableAllApply : ∀ (store : Store) (log : List ScopeAction),
    Decidable (AllApply store log)
  | _, [] => isTrue trivial
  | store, a :: rest =>
    have := decidableAllApply (a.perform store).2 rest
    inferInstanceAs (Decidable (a.Applies store ∧ AllApply (a.perform store).2 rest))

/-- The store after actions. -/
def performAll (store : Store) (log : List ScopeAction) : Store :=
  log.foldl (fun store a => (a.perform store).2) store

end ScopeAction

/-- **Actions lead to a store**, one after another from the store without objects. -/
inductive Leads : List ScopeAction → Store → Prop
  | nil : Leads [] .empty
  | snoc {log store} (h : Leads log store) {a : ScopeAction} (ha : a.Applies store) :
      Leads (log ++ [a]) (a.perform store).2

/-! ### The shape of a tree -/

namespace Store

/-- The scopes of a store form trees: each stands inside one before it or inside none, and a
block never stands alone. -/
structure Shaped (store : Store) : Prop where
  wellFormed : store.WellFormed
  block_inside : ∀ {ref scope}, store.scopes.get? ref = some scope → scope.kind = .block →
    scope.parent.isSome

variable {store after : Store}

/-- A change of scopes that are there keeps the shape. -/
theorem Shaped.of_grows (h : store.Shaped) (hw : after.WellFormed) (hgrows : store.Grows after)
    (hsize : after.scopes.size = store.scopes.size) : after.Shaped where
  wellFormed := hw
  block_inside {ref scope'} hget hkind := by
    have hbefore : store.HasScope ref := by
      rw [hasScope_iff, ← hsize]
      exact hasScope_iff.1 ⟨scope', hget⟩
    obtain ⟨scope, hscope⟩ := hbefore
    obtain ⟨scope'', hget', hkind', hparent⟩ := hgrows ref scope hscope
    obtain rfl := Option.some.inj (hget.symm.trans hget')
    rw [hparent]
    exact h.block_inside hscope (hkind'.symm.trans hkind)

/-- A new scope keeps the shape, if it is inside one or is no block. -/
theorem shaped_addScope (h : store.Shaped) {kind : ScopeKind} {parent : Option (Ref .scope)}
    (hp : ∀ p, parent = some p → store.HasScope p) (hblock : kind = .block → parent.isSome) :
    (store.addScope kind parent).2.Shaped where
  wellFormed := wellFormed_addScope h.wellFormed kind hp
  block_inside {ref scope} hget hkind := by
    rw [get?_addScope] at hget
    split at hget
    · obtain rfl := Option.some.inj hget
      exact hblock hkind
    · exact h.block_inside hget hkind

theorem shaped_empty : empty.Shaped where
  wellFormed := wellFormed_empty
  block_inside h := by
    simp [empty, EmptyCollection.emptyCollection, Heap.empty, Heap.get?] at h

/-- What assigning changes: nothing, or the binding in the scope that owns the name. -/
theorem perform_assign (store : Store) (ref : Ref .scope) (name : String) (value : Value) :
    (ScopeAction.assign ref name value).perform store =
      match store.owner? ref name with
      | some owner => (.done, store.define owner name value)
      | none => (.handedBack value, store) := by
  rw [ScopeAction.perform, assign?]
  cases store.owner? ref name <;> rfl

/-- An action lets a tree grow and keeps its shape. -/
theorem grows_perform (h : store.Shaped) {a : ScopeAction} (ha : a.Applies store) :
    store.Grows (a.perform store).2 ∧ (a.perform store).2.Shaped := by
  -- Two kinds of change occur more than once: a binding and a pending return.
  have hdefine (ref : Ref .scope) (name : String) (value : Value) :
      store.Grows (store.define ref name value) ∧ (store.define ref name value).Shaped := by
    have hkeeps := keepsReturns_define h.wellFormed ref name value
    exact ⟨hkeeps.grows, h.of_grows hkeeps.wellFormed hkeeps.grows (Heap.size_modify ..)⟩
  have hreturn (ref : Ref .scope) (value : Option Value) :
      store.Grows (store.putReturn ref value) ∧ (store.putReturn ref value).Shaped :=
    ⟨grows_putReturn ref value, h.of_grows (wellFormed_putReturn h.wellFormed ref value)
      (grows_putReturn ref value) (Heap.size_modify ..)⟩
  cases a with
  | root => exact ⟨grows_addScope .root none, shaped_addScope h (by rintro p ⟨⟩) (by rintro ⟨⟩)⟩
  | enclose kind parent =>
    refine ⟨grows_addScope kind (some parent), shaped_addScope h ?_ fun _ => rfl⟩
    rintro p ⟨⟩
    exact ha parent rfl
  | define ref name value => exact hdefine ref name value
  | assign ref name value =>
    rw [perform_assign]
    cases store.owner? ref name with
    | some owner => exact hdefine owner name value
    | none => exact ⟨.refl store, h⟩
  | setReturn ref value => exact hreturn ref (some value)
  | takeReturn ref => exact hreturn ref none
  | get => exact ⟨.refl store, h⟩
  | isReturning => exact ⟨.refl store, h⟩

end Store

namespace Leads

variable {log : List ScopeAction} {store : Store}

theorem append (h : Leads log store) {more : List ScopeAction}
    (hmore : ScopeAction.AllApply store more) :
    Leads (log ++ more) (ScopeAction.performAll store more) := by
  induction more generalizing log store with
  | nil =>
    rw [List.append_nil]
    exact h
  | cons a more ih =>
    have hrest := ih (h.snoc hmore.1) hmore.2
    rwa [List.append_assoc] at hrest

/-- Actions that can be performed lead to the store after them. -/
theorem of_allApply (h : ScopeAction.AllApply .empty log) :
    Leads log (ScopeAction.performAll .empty log) :=
  append .nil h

/-- **Actions lead to trees**, by induction on the actions. -/
theorem shaped (h : Leads log store) : store.Shaped := by
  induction h with
  | nil => exact Store.shaped_empty
  | snoc _ ha ih => exact (Store.grows_perform ih ha).2

/-- The scopes that actions were done with are there. -/
theorem hasScope (h : Leads log store) {a : ScopeAction} (ha : a ∈ log) {ref : Ref .scope}
    (href : a.scope? = some ref) : store.HasScope ref := by
  induction h with
  | nil => cases ha
  | @snoc log store hlog last hlast ih =>
    have hgrows := (Store.grows_perform hlog.shaped hlast).1
    rcases List.mem_append.1 ha with ha | ha
    · exact hgrows.hasScope (ih ha)
    · obtain rfl := List.mem_singleton.1 ha
      exact hgrows.hasScope (hlast ref href)

end Leads

end Script
