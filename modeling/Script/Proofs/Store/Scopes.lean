import Script.Store

/-!
# Scopes, the scopes around them, and their boundaries

A store is *well formed* if the scope around a scope was made before it and every function was made
in a scope that exists. Then the chain of a scope can be followed link by link, and so can the
search for its boundary:

* `chain_of_parent`, `chain_of_no_parent`: a chain is a scope and the chain of the scope around it;
* `boundary_of_passes`, `boundary_of_not_passes`: a block has the boundary of the scope around it,
  every other scope is its own;
* `Grows`: scopes keep their kind and the scope around them, whatever else happens to the store;
* `Grows.boundary_eq`: hence they keep their boundary.
-/

namespace Script

namespace Store

/-! ### Well-formed stores -/

/-- A scope that exists. -/
def HasScope (store : Store) (ref : Ref .scope) : Prop :=
  ∃ scope, store.scopes.get? ref = some scope

/-- A store whose links lead somewhere. The scope around a scope stands before it, so no scope
is around itself; the scope that a function was made in exists. -/
structure WellFormed (store : Store) : Prop where
  parent_lt : ∀ {ref scope parent}, store.scopes.get? ref = some scope →
    scope.parent = some parent → parent.index < ref.index
  closure_scope : ∀ {ref closure}, store.closures.get? ref = some closure →
    store.HasScope closure.scope

theorem wellFormed_empty : empty.WellFormed where
  parent_lt h := by simp [empty, EmptyCollection.emptyCollection, Heap.empty, Heap.get?] at h
  closure_scope h := by simp [empty, EmptyCollection.emptyCollection, Heap.empty, Heap.get?] at h

theorem hasScope_iff {store : Store} {ref : Ref .scope} :
    store.HasScope ref ↔ ref.index < store.scopes.size := by
  unfold HasScope Heap.get? Heap.size
  constructor
  · rintro ⟨scope, h⟩
    exact (Array.getElem?_eq_some_iff.1 h).1
  · intro h
    exact ⟨_, Array.getElem?_eq_getElem h⟩

theorem hasScope_of_get? {store : Store} {ref : Ref .scope} {scope : Scope}
    (h : store.scopes.get? ref = some scope) : store.HasScope ref :=
  ⟨scope, h⟩

/-- The scope around a scope exists. -/
theorem WellFormed.hasScope_parent {store : Store} (hw : store.WellFormed)
    {ref parent : Ref .scope} {scope : Scope} (h : store.scopes.get? ref = some scope)
    (hp : scope.parent = some parent) : store.HasScope parent := by
  have hlt := hw.parent_lt h hp
  have hlt' := hasScope_iff.1 (hasScope_of_get? h)
  exact hasScope_iff.2 (by omega)

/-- Induction from the outside inwards: what holds of a scope whenever it holds of the scope
around it holds of every scope. -/
theorem WellFormed.induction {store : Store} (hw : store.WellFormed) {P : Ref .scope → Prop}
    (step : ∀ ref scope, store.scopes.get? ref = some scope →
      (∀ parent, scope.parent = some parent → store.HasScope parent → P parent) → P ref) :
    ∀ ref, store.HasScope ref → P ref := by
  -- by induction on a bound of the index, which is smaller for the scope around
  suffices h : ∀ n ref, ref.index < n → store.HasScope ref → P ref from
    fun ref hs => h _ ref (Nat.lt_succ_self _) hs
  intro n
  induction n with
  | zero => intro ref hn; omega
  | succ n ih =>
    rintro ref hn ⟨scope, hs⟩
    refine step ref scope hs fun parent hp hparent => ih parent ?_ hparent
    have hlt := hw.parent_lt hs hp
    omega

/-! ### Chains -/

section Chain

variable {store : Store} (hw : store.WellFormed)
include hw

/-- The length of a chain is bounded by where it begins: any two bounds above the index of the
first scope give the same chain. -/
theorem chainWithin_eq : ∀ {n m : Nat} {ref : Ref .scope}, ref.index < n → ref.index < m →
    chainWithin store.scopes n ref = chainWithin store.scopes m ref
  | n + 1, m + 1, ref, hn, hm => by
    rw [chainWithin, chainWithin]
    split
    · -- the scope around stands before `ref`, so both bounds are still above it
      next parent hp =>
      rw [Option.bind_eq_some_iff] at hp
      obtain ⟨scope, hs, hp⟩ := hp
      have hlt := hw.parent_lt hs hp
      rw [chainWithin_eq (n := n) (m := m) (by omega) (by omega)]
    · rfl

/-- **A chain goes on with the chain of the scope around.** -/
theorem chain_of_parent {ref parent : Ref .scope} {scope : Scope}
    (hs : store.scopes.get? ref = some scope) (hp : scope.parent = some parent) :
    store.chain ref = ref :: store.chain parent := by
  have hlt := hw.parent_lt hs hp
  have hbind : (store.scopes.get? ref).bind Scope.parent = some parent := by
    rw [hs]
    exact hp
  rw [chain, chainWithin, hbind]
  exact congrArg _ (chainWithin_eq hw hlt (Nat.lt_succ_self _))

omit hw in
/-- **A chain ends with a scope that has none around it.** -/
theorem chain_of_no_parent {ref : Ref .scope} {scope : Scope}
    (hs : store.scopes.get? ref = some scope) (hp : scope.parent = none) :
    store.chain ref = [ref] := by
  have hbind : (store.scopes.get? ref).bind Scope.parent = none := by
    rw [hs]
    exact hp
  rw [chain, chainWithin, hbind]

end Chain

/-! ### Boundaries -/

theorem exists_chain_eq_cons (store : Store) (ref : Ref .scope) :
    ∃ rest, store.chain ref = ref :: rest := by
  rw [chain, chainWithin]
  split <;> exact ⟨_, rfl⟩

theorem exists_parent_of_passes {scope : Scope} (hb : scope.passesReturn = true) :
    ∃ parent, scope.parent = some parent := by
  unfold Scope.passesReturn at hb
  rw [Bool.and_eq_true] at hb
  exact Option.isSome_iff_exists.1 hb.2

/-- **A scope that keeps returns is its own boundary.** -/
theorem boundary_of_not_passes {store : Store} {ref : Ref .scope} {scope : Scope}
    (hs : store.scopes.get? ref = some scope) (hb : scope.passesReturn = false) :
    store.boundary ref = ref := by
  obtain ⟨rest, hchain⟩ := exists_chain_eq_cons store ref
  rw [boundary, hchain, List.find?_cons_of_pos (by simp [hs, hb])]
  rfl

section Boundary

variable {store : Store} (hw : store.WellFormed)
include hw

/-- Somewhere in its chain every scope has a boundary. -/
theorem exists_find?_chain : ∀ ref, store.HasScope ref →
    ∃ b, (store.chain ref).find? (fun r => !(store.scopes.get? r).any Scope.passesReturn) =
      some b := by
  refine hw.induction fun ref scope hs ih => ?_
  cases hb : scope.passesReturn with
  | false =>
    obtain ⟨rest, hchain⟩ := exists_chain_eq_cons store ref
    exact ⟨ref, by rw [hchain, List.find?_cons_of_pos (by simp [hs, hb])]⟩
  | true =>
    obtain ⟨parent, hp⟩ := exists_parent_of_passes hb
    rw [chain_of_parent hw hs hp, List.find?_cons_of_neg (by simp [hs, hb])]
    exact ih parent hp (hw.hasScope_parent hs hp)

/-- **A scope that passes returns on has the boundary of the scope around it.** -/
theorem boundary_of_passes {ref parent : Ref .scope} {scope : Scope}
    (hs : store.scopes.get? ref = some scope) (hb : scope.passesReturn = true)
    (hp : scope.parent = some parent) : store.boundary ref = store.boundary parent := by
  obtain ⟨b, hfind⟩ := exists_find?_chain hw parent (hw.hasScope_parent hs hp)
  rw [boundary, boundary, chain_of_parent hw hs hp, List.find?_cons_of_neg (by simp [hs, hb]),
    hfind]
  rfl

/-- The boundary of a scope exists. -/
theorem hasScope_boundary : ∀ ref, store.HasScope ref → store.HasScope (store.boundary ref) := by
  refine hw.induction fun ref scope hs ih => ?_
  cases hb : scope.passesReturn with
  | false =>
    rw [boundary_of_not_passes hs hb]
    exact ⟨scope, hs⟩
  | true =>
    obtain ⟨parent, hp⟩ := exists_parent_of_passes hb
    rw [boundary_of_passes hw hs hb hp]
    exact ih parent hp (hw.hasScope_parent hs hp)

end Boundary

/-! ### Growth -/

/-- A store grows if its scopes stay where they are, of the same kind and inside the same
scope. Their bindings and pending returns may change, and there may be more scopes. -/
def Grows (before after : Store) : Prop :=
  ∀ ref scope, before.scopes.get? ref = some scope →
    ∃ scope', after.scopes.get? ref = some scope' ∧ scope'.kind = scope.kind ∧
      scope'.parent = scope.parent

namespace Grows

variable {a b c : Store}

theorem refl (a : Store) : a.Grows a :=
  fun _ scope h => ⟨scope, h, rfl, rfl⟩

theorem trans (hab : a.Grows b) (hbc : b.Grows c) : a.Grows c := by
  intro ref scope h
  obtain ⟨scope', h', hkind, hparent⟩ := hab ref scope h
  obtain ⟨scope'', h'', hkind', hparent'⟩ := hbc ref scope' h'
  exact ⟨scope'', h'', hkind'.trans hkind, hparent'.trans hparent⟩

theorem of_scopes_eq (h : b.scopes = a.scopes) : a.Grows b := by
  intro ref scope hs
  exact ⟨scope, h ▸ hs, rfl, rfl⟩

theorem hasScope (h : a.Grows b) {ref : Ref .scope} (hs : a.HasScope ref) : b.HasScope ref := by
  obtain ⟨scope, hs⟩ := hs
  obtain ⟨scope', hs', -⟩ := h ref scope hs
  exact ⟨scope', hs'⟩

theorem passesReturn_eq {s s' : Scope} (hkind : s'.kind = s.kind) (hparent : s'.parent = s.parent) :
    s'.passesReturn = s.passesReturn := by
  rw [Scope.passesReturn, Scope.passesReturn, hkind, hparent]

/-- **As a store grows, the boundary of a scope stays the same.** -/
theorem boundary_eq (hab : a.Grows b) (ha : a.WellFormed) (hb : b.WellFormed) :
    ∀ ref, a.HasScope ref → b.boundary ref = a.boundary ref := by
  refine ha.induction fun ref scope hs ih => ?_
  obtain ⟨scope', hs', hkind, hparent⟩ := hab ref scope hs
  have hpass := passesReturn_eq hkind hparent
  cases hp : scope.passesReturn with
  | false => rw [boundary_of_not_passes hs hp, boundary_of_not_passes hs' (hpass.trans hp)]
  | true =>
    obtain ⟨parent, hpar⟩ := exists_parent_of_passes hp
    rw [boundary_of_passes ha hs hp hpar,
      boundary_of_passes hb hs' (hpass.trans hp) (hparent.trans hpar)]
    exact ih parent hpar (ha.hasScope_parent hs hpar)

end Grows

end Store

end Script
