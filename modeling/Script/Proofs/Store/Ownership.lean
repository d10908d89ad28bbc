import Script.Proofs.Store.Actions

/-!
# Names and the scopes that own them

A name may be bound in many scopes of a tree. Seen from a scope it belongs to the first one, on the
way outwards, that binds it; that scope *owns* the name there. Lookup reads the owner's binding and
assignment replaces it, so an assignment is seen from exactly the scopes that share the owner. All
that the proofs need of a store is which scopes bind the name and which scope is around which: an
assignment changes neither, so no owner changes.

* `Store.Owns`: the owner, along the scopes one by one;
* `Store.owner?_eq_some_iff`: the search along the chain finds it;
* `Store.BindsOnly`: one binding changes and nothing else does;
* `Store.lookup?_of_bindsOnly`: what is looked up after an assignment, from anywhere;
* `Leads.lexical_ownership`: all of this on every tree of scopes.
-/

namespace Script

namespace Store

/-- The scope around a scope. -/
def parent? (store : Store) (ref : Ref .scope) : Option (Ref .scope) :=
  (store.scopes.get? ref).bind Scope.parent

/-- **A scope owns a name**, seen from a scope: it is the first one outwards that binds the name. -/
inductive Owns (store : Store) (name : String) : Ref .scope → Ref .scope → Prop
  | here {ref value} (h : store.binding? ref name = some value) : Owns store name ref ref
  | outside {ref parent owner} (h : store.binding? ref name = none)
      (hp : store.parent? ref = some parent) (ho : Owns store name parent owner) :
      Owns store name ref owner

variable {store before after : Store} {ref owner : Ref .scope} {name : String} {value : Value}

namespace Owns

theorem exists_binding (h : store.Owns name ref owner) :
    ∃ value, store.binding? owner name = some value := by
  induction h with
  | here h => exact ⟨_, h⟩
  | outside _ _ _ ih => exact ih

/-- Owners depend only on which scopes bind the name and on which scope is around which. -/
theorem congr (h : before.Owns name ref owner)
    (hbinds : ∀ r, (after.binding? r name).isSome = (before.binding? r name).isSome)
    (hparent : ∀ r, after.parent? r = before.parent? r) : after.Owns name ref owner := by
  induction h with
  | @here ref value h =>
    have hsome : (after.binding? ref name).isSome := by rw [hbinds, h, Option.isSome_some]
    obtain ⟨value', h'⟩ := Option.isSome_iff_exists.1 hsome
    exact .here h'
  | @outside ref parent owner h hp _ ih =>
    have hnone : (after.binding? ref name).isSome = false := by rw [hbinds, h, Option.isSome_none]
    exact .outside (Option.isNone_iff_eq_none.1 (Option.isSome_eq_false_iff.1 hnone))
      ((hparent ref).trans hp) ih

end Owns

/-! ### The search for the owner -/

/-- A scope that binds a name is the owner that is found from it. -/
theorem owner?_of_bound (h : store.binding? ref name = some value) :
    store.owner? ref name = some ref := by
  obtain ⟨rest, hchain⟩ := exists_chain_eq_cons store ref
  rw [owner?, hchain, List.find?_cons_of_pos (by rw [h]; rfl)]

/-- From a scope that does not bind a name the search goes on with the scope around it. -/
theorem owner?_of_parent (hw : store.WellFormed) (h : store.binding? ref name = none)
    {parent : Ref .scope} (hp : store.parent? ref = some parent) :
    store.owner? ref name = store.owner? parent name := by
  obtain ⟨scope, hs, hp⟩ := Option.bind_eq_some_iff.1 hp
  rw [owner?, owner?, chain_of_parent hw hs hp, List.find?_cons_of_neg (by simp [h])]

/-- A scope that is inside none and does not bind a name ends the search. -/
theorem owner?_of_no_parent (h : store.binding? ref name = none) (hp : store.parent? ref = none) :
    store.owner? ref name = none := by
  have hchain : store.chain ref = [ref] := by
    rw [chain, chainWithin]
    rw [parent?] at hp
    rw [hp]
  rw [owner?, hchain, List.find?_cons_of_neg (by simp [h]), List.find?_nil]

theorem owns_of_owner? (hw : store.WellFormed) :
    ∀ ref, store.HasScope ref → store.owner? ref name = some owner → store.Owns name ref owner := by
  refine hw.induction fun ref scope hs ih howner => ?_
  cases hbinding : store.binding? ref name with
  | some value =>
    rw [owner?_of_bound hbinding] at howner
    exact Option.some.inj howner ▸ .here hbinding
  | none =>
    cases hp : store.parent? ref with
    | none =>
      rw [owner?_of_no_parent hbinding hp] at howner
      cases howner
    | some parent =>
      rw [owner?_of_parent hw hbinding hp] at howner
      obtain ⟨scope', hs', hparent⟩ := Option.bind_eq_some_iff.1 hp
      obtain rfl := Option.some.inj (hs.symm.trans hs')
      exact .outside hbinding hp (ih parent hparent (hw.hasScope_parent hs hparent) howner)

theorem Owns.owner?_eq (hw : store.WellFormed) (h : store.Owns name ref owner) :
    store.owner? ref name = some owner := by
  induction h with
  | here h => exact owner?_of_bound h
  | outside h hp _ ih => rw [owner?_of_parent hw h hp, ih]

/-- **The search finds the owner**, if there is one. -/
theorem owner?_eq_some_iff (hw : store.WellFormed) (href : store.HasScope ref) :
    store.owner? ref name = some owner ↔ store.Owns name ref owner :=
  ⟨owns_of_owner? hw ref href, (·.owner?_eq hw)⟩

theorem owner?_eq_none_iff (hw : store.WellFormed) (href : store.HasScope ref) :
    store.owner? ref name = none ↔ ∀ owner, ¬ store.Owns name ref owner := by
  rw [Option.eq_none_iff_forall_ne_some]
  exact forall_congr' fun owner => not_congr (owner?_eq_some_iff hw href)

/-- The value of a name is that of its binding in the owner. -/
theorem lookup?_of_owns (hw : store.WellFormed) (h : store.Owns name ref owner) :
    store.lookup? ref name = store.binding? owner name := by
  rw [lookup?, h.owner?_eq hw, Option.bind_some]

theorem lookup?_of_not_owns (hw : store.WellFormed) (href : store.HasScope ref)
    (h : ∀ owner, ¬ store.Owns name ref owner) : store.lookup? ref name = none := by
  rw [lookup?, (owner?_eq_none_iff hw href).2 h, Option.bind_none]

/-! ### One binding changes -/

/-- **Only the binding of a name in a scope changes**: it has the value. All other bindings are as
they were, and so are the kinds of scopes, the scopes around them, what is pending in them, and all
arrays, maps and functions. -/
structure BindsOnly (ref : Ref .scope) (name : String) (value : Value) (before after : Store) :
    Prop where
  bound : after.binding? ref name = some value
  others : ∀ r m, ¬ (r = ref ∧ m = name) → after.binding? r m = before.binding? r m
  unbound : ∀ r, (after.scopes.get? r).map ({ · with bindings := ∅ }) =
    (before.scopes.get? r).map ({ · with bindings := ∅ })
  arrays : after.arrays = before.arrays
  maps : after.maps = before.maps
  closures : after.closures = before.closures

theorem bindsOnly_define (href : store.HasScope ref) (name : String) (value : Value) :
    BindsOnly ref name value store (store.define ref name value) where
  bound := by
    obtain ⟨scope, hs⟩ := href
    rw [binding?, define, Heap.get?_modify, if_pos rfl, hs, Option.map_some, Option.bind_some,
      Assoc.get?_insert, if_pos rfl]
  others r m hne := by
    by_cases hname : name = m
    · have href : ref ≠ r := fun h => hne ⟨h.symm, hname.symm⟩
      rw [binding?, define, Heap.get?_modify, if_neg href, binding?]
    · refine Heap.bind_get?_modify (fun scope => ?_) ref r
      exact (scope.bindings.get?_insert name m value).trans (if_neg hname)
  unbound r := by
    refine Heap.map_get?_modify (fun scope => ?_) ref r
    rfl
  arrays := rfl
  maps := rfl
  closures := rfl

theorem BindsOnly.parent?_eq (h : BindsOnly ref name value before after) (r : Ref .scope) :
    after.parent? r = before.parent? r := by
  have hparents (s : Store) : s.parent? r =
      ((s.scopes.get? r).map ({ · with bindings := ∅ })).bind Scope.parent := by
    rw [parent?, Option.bind_map]
    rfl
  rw [hparents, hparents, h.unbound]

/-- Where a name was bound already, no scope binds more names than before, or fewer. -/
theorem BindsOnly.isSome_binding? (h : BindsOnly ref name value before after)
    (hbound : (before.binding? ref name).isSome) (r : Ref .scope) (m : String) :
    (after.binding? r m).isSome = (before.binding? r m).isSome := by
  by_cases heq : r = ref ∧ m = name
  · obtain ⟨rfl, rfl⟩ := heq
    rw [h.bound, hbound, Option.isSome_some]
  · rw [h.others r m heq]

/-- An assignment changes no owner. -/
theorem BindsOnly.owns_iff (h : BindsOnly ref name value before after)
    (hbound : (before.binding? ref name).isSome) {m : String} {t owner : Ref .scope} :
    after.Owns m t owner ↔ before.Owns m t owner :=
  ⟨fun ho => ho.congr (fun r => (h.isSome_binding? hbound r m).symm)
      fun r => (h.parent?_eq r).symm,
    fun ho => ho.congr (h.isSome_binding? hbound · m) h.parent?_eq⟩

/-- **An assignment is seen from exactly the scopes that share the owner** of the name. -/
theorem lookup?_of_bindsOnly (hw : before.WellFormed) (hw' : after.WellFormed)
    (h : BindsOnly owner name value before after) (hbound : (before.binding? owner name).isSome)
    {t : Ref .scope} (ht : before.HasScope t) (ht' : after.HasScope t) (m : String) :
    (m = name ∧ before.Owns name t owner → after.lookup? t m = some value) ∧
      (¬ (m = name ∧ before.Owns name t owner) → after.lookup? t m = before.lookup? t m) := by
  constructor
  · rintro ⟨rfl, hshared⟩
    rw [lookup?_of_owns hw' ((h.owns_iff hbound).2 hshared), h.bound]
  · intro hnot
    by_cases howned : ∃ o, before.Owns m t o
    · obtain ⟨o, ho⟩ := howned
      rw [lookup?_of_owns hw' ((h.owns_iff hbound).2 ho), lookup?_of_owns hw ho]
      refine h.others o m ?_
      rintro ⟨rfl, rfl⟩
      exact hnot ⟨rfl, ho⟩
    · have hnone : ∀ o, ¬ before.Owns m t o := fun o ho => howned ⟨o, ho⟩
      rw [lookup?_of_not_owns hw' ht' fun o ho => hnone o ((h.owns_iff hbound).1 ho),
        lookup?_of_not_owns hw ht hnone]

end Store

namespace Leads

open ScopeAction Store

variable {log : List ScopeAction} {store : Store} {ref : Ref .scope}

/-- **Names obey lexical ownership on every tree of scopes.** Lookup finds the binding in the owner
of a name, and nothing if there is no owner. Binding a name changes its binding in that scope alone.
An assignment hands the value back, and changes nothing, exactly if the name has no owner; else it
changes the binding in the owner alone, and is seen from exactly the scopes that share the owner. -/
theorem lexical_ownership (h : Leads log store) (href : store.HasScope ref) (name : String)
    (value : Value) :
    (∀ found, (get ref name).perform store = (.found (some found), store) ↔
      ∃ owner, store.Owns name ref owner ∧ store.binding? owner name = some found) ∧
    ((get ref name).perform store = (.found none, store) ↔ ∀ owner, ¬ store.Owns name ref owner) ∧
    (∃ after, (define ref name value).perform store = (.done, after) ∧
      BindsOnly ref name value store after) ∧
    ((assign ref name value).perform store = (.handedBack value, store) ↔
      ∀ owner, ¬ store.Owns name ref owner) ∧
    ∀ owner, store.Owns name ref owner → ∃ after,
      (assign ref name value).perform store = (.done, after) ∧
      BindsOnly owner name value store after ∧
      ∀ t m, store.HasScope t →
        (m = name ∧ store.Owns name t owner → after.lookup? t m = some value) ∧
        (¬ (m = name ∧ store.Owns name t owner) → after.lookup? t m = store.lookup? t m) := by
  have hw := h.shaped.wellFormed
  have hget (found : Option Value) :
      (get ref name).perform store = (.found found, store) ↔ store.lookup? ref name = found := by
    simp [perform]
  refine ⟨fun found => ?_, ?_, ⟨_, rfl, bindsOnly_define href name value⟩, ?_, fun owner ho => ?_⟩
  · rw [hget, lookup?, Option.bind_eq_some_iff]
    exact exists_congr fun owner => and_congr_left' (owner?_eq_some_iff hw href)
  · rw [hget, ← owner?_eq_none_iff hw href]
    constructor
    · -- an owner binds the name, so where nothing is found there is none
      intro hnone
      refine (owner?_eq_none_iff hw href).2 fun owner ho => ?_
      obtain ⟨value, hvalue⟩ := ho.exists_binding
      rw [lookup?_of_owns hw ho, hvalue] at hnone
      cases hnone
    · intro hnone
      rw [lookup?, hnone, Option.bind_none]
  · rw [perform_assign, ← owner?_eq_none_iff hw href]
    cases store.owner? ref name <;> simp
  · -- the owner has a binding already, so no other scope comes to own the name
    obtain ⟨found, hfound⟩ := ho.exists_binding
    have hscope : store.HasScope owner := by
      obtain ⟨scope, hscope, -⟩ := Option.bind_eq_some_iff.1 hfound
      exact ⟨scope, hscope⟩
    have hbinds := bindsOnly_define hscope name value
    have hkeeps := keepsReturns_define hw owner name value
    refine ⟨_, by rw [perform_assign, ho.owner?_eq hw], hbinds, fun t m ht => ?_⟩
    exact lookup?_of_bindsOnly hw hkeeps.wellFormed hbinds (Option.isSome_of_eq_some hfound) ht
      (hkeeps.grows.hasScope ht) m

/-- A name that is bound in a root and again in a function's scope inside it, assigned in a block of
the function: the function sees the assignment, and another block in the root does not. -/
theorem lexical_ownership_shadowed :
    let log := [root, enclose .function ⟨0⟩, enclose .block ⟨1⟩, enclose .block ⟨0⟩,
      define ⟨0⟩ "x" (.integer 1), define ⟨1⟩ "x" (.integer 2)]
    let store := performAll .empty log
    Leads log store ∧ store.HasScope ⟨2⟩ ∧ store.Owns "x" ⟨2⟩ ⟨1⟩ ∧ ∃ after,
      (assign ⟨2⟩ "x" (.integer 3)).perform store = (.done, after) ∧
      after.lookup? ⟨1⟩ "x" = some (.integer 3) ∧ after.lookup? ⟨3⟩ "x" = some (.integer 1) := by
  intro log store
  have hlog : Leads log store := of_allApply (by decide)
  have hscope : store.HasScope ⟨2⟩ := ⟨_, rfl⟩
  have howns : store.Owns "x" ⟨2⟩ ⟨1⟩ := .outside rfl rfl (.here rfl)
  obtain ⟨after, hperform, -, hseen⟩ :=
    (lexical_ownership hlog hscope "x" (.integer 3)).2.2.2.2 ⟨1⟩ howns
  refine ⟨hlog, hscope, howns, after, hperform, ?_, ?_⟩
  · exact (hseen ⟨1⟩ "x" ⟨_, rfl⟩).1 ⟨rfl, .here rfl⟩
  · refine ((hseen ⟨3⟩ "x" ⟨_, rfl⟩).2 ?_).trans rfl
    rintro ⟨-, howns'⟩
    exact absurd (howns'.owner?_eq hlog.shaped.wellFormed) (by decide)

end Leads

end Script
