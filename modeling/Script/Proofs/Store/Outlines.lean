import Script.Proofs.Store.Returns

/-!
# What binding a name changes

The *outline* of a scope is what a reader of a script knows of it without its values: its kind, the
scope around it, and the names that are bound in it. Hardly any change of a store changes an
outline. A new scope is added beside the others, and a name that is bound already gets another value
under the same name; only where a name is bound for the first time does an outline grow, and only
that of the scope that it is bound in.

* `Store.KeepsOutlines`: all scopes keep their outlines;
* `Store.KeepsOutlinesBut`: all scopes but one do, `KeepsOutlinesBut.of_new`: which is enough if
  that one was not there before;
* `Store.Binds`: a name is bound in one scope, and nothing else about any scope changes.
-/

namespace Script

/-- The outline of a scope: its kind, the scope around it, and the names bound in it. -/
structure Outline where
  kind : ScopeKind
  parent : Option (Ref .scope)
  names : List String
deriving DecidableEq, Repr

def Scope.outline (scope : Scope) : Outline :=
  ⟨scope.kind, scope.parent, scope.bindings.keys⟩

/-- The outline with a name bound, whether it was bound before or not. -/
def Outline.bind (name : String) (o : Outline) : Outline :=
  { o with names := if name ∈ o.names then o.names else o.names ++ [name] }

theorem Scope.outline_insert (scope : Scope) (name : String) (value : Value) :
    outline { scope with bindings := scope.bindings.insert name value } =
      scope.outline.bind name := by
  unfold outline Outline.bind
  rw [Assoc.keys_insert]

theorem Outline.bind_of_mem {name : String} {o : Outline} (h : name ∈ o.names) :
    o.bind name = o := by
  unfold bind
  rw [if_pos h]

namespace Store

/-- The outline of a scope, if the scope exists. -/
def outline? (store : Store) (ref : Ref .scope) : Option Outline :=
  (store.scopes.get? ref).map Scope.outline

/-- All scopes keep their outlines. There may be new scopes. -/
def KeepsOutlines (before after : Store) : Prop :=
  ∀ ref, before.HasScope ref → after.outline? ref = before.outline? ref

/-- **All scopes but one keep their outlines**, and that one remains a scope. -/
structure KeepsOutlinesBut (scope : Ref .scope) (before after : Store) : Prop where
  others : ∀ ref, before.HasScope ref → ref ≠ scope → after.outline? ref = before.outline? ref
  hasScope : before.HasScope scope → after.HasScope scope

/-- A name is bound in a scope, and all other outlines are kept. -/
def Binds (scope : Ref .scope) (name : String) (before after : Store) : Prop :=
  ∀ ref, before.HasScope ref → after.outline? ref =
    if ref = scope then (before.outline? ref).map (Outline.bind name) else before.outline? ref

theorem isSome_outline?_iff {store : Store} {ref : Ref .scope} :
    (store.outline? ref).isSome ↔ store.HasScope ref := by
  rw [outline?, Option.isSome_map, Option.isSome_iff_exists]
  rfl

section Relations

variable {a b c : Store} {scope : Ref .scope} {name : String}

namespace KeepsOutlines

theorem refl (a : Store) : a.KeepsOutlines a :=
  fun _ _ => rfl

theorem hasScope (h : a.KeepsOutlines b) {ref : Ref .scope} (hs : a.HasScope ref) :
    b.HasScope ref := by
  rw [← isSome_outline?_iff, h ref hs, isSome_outline?_iff]
  exact hs

theorem trans (hab : a.KeepsOutlines b) (hbc : b.KeepsOutlines c) : a.KeepsOutlines c :=
  fun ref hs => (hbc ref (hab.hasScope hs)).trans (hab ref hs)

theorem but (h : a.KeepsOutlines b) (scope : Ref .scope) : KeepsOutlinesBut scope a b :=
  ⟨fun ref hs _ => h ref hs, h.hasScope⟩

theorem binds (hab : a.KeepsOutlines b) (hbc : Binds scope name b c) : Binds scope name a c := by
  intro ref hs
  rw [hbc ref (hab.hasScope hs), hab ref hs]

end KeepsOutlines

namespace KeepsOutlinesBut

theorem hasScope' (h : KeepsOutlinesBut scope a b) {ref : Ref .scope} (hs : a.HasScope ref) :
    b.HasScope ref := by
  by_cases href : ref = scope
  · subst href
    exact h.hasScope hs
  · rw [← isSome_outline?_iff, h.others ref hs href, isSome_outline?_iff]
    exact hs

theorem trans (hab : KeepsOutlinesBut scope a b) (hbc : KeepsOutlinesBut scope b c) :
    KeepsOutlinesBut scope a c where
  others ref hs hne := (hbc.others ref (hab.hasScope' hs) hne).trans (hab.others ref hs hne)
  hasScope hs := hbc.hasScope (hab.hasScope hs)

/-- **A scope that was not there before** is none of those that have to keep their outlines. -/
theorem of_new (hab : a.KeepsOutlines b) (hbc : KeepsOutlinesBut scope b c)
    (hnew : ¬ a.HasScope scope) : a.KeepsOutlines c := by
  intro ref hs
  have hne : ref ≠ scope := by
    rintro rfl
    exact hnew hs
  rw [hbc.others ref (hab.hasScope hs) hne, hab ref hs]

end KeepsOutlinesBut

theorem Binds.but (h : Binds scope name a b) : KeepsOutlinesBut scope a b where
  others ref hs hne := (h ref hs).trans (if_neg hne)
  hasScope hs := by
    rw [← isSome_outline?_iff, h scope hs, if_pos rfl, Option.isSome_map, isSome_outline?_iff]
    exact hs

theorem Binds.keepsOutlines (hab : Binds scope name a b) (hbc : b.KeepsOutlines c) :
    Binds scope name a c := by
  intro ref hs
  rw [hbc ref (hab.but.hasScope' hs), hab ref hs]

/-- Binding a name that is bound already changes no outline. -/
theorem Binds.keeps (h : Binds scope name a b)
    (hname : ∀ o, a.outline? scope = some o → name ∈ o.names) : a.KeepsOutlines b := by
  intro ref hs
  rw [h ref hs]
  split
  · next heq =>
    subst heq
    cases ho : a.outline? ref with
    | none => rfl
    | some o => exact congrArg some (Outline.bind_of_mem (hname o ho))
  · rfl

end Relations

/-! ### The changes of a store -/

section Changes

variable {store : Store}

theorem keepsOutlines_of_eq {after : Store} (h : after.scopes = store.scopes) :
    store.KeepsOutlines after := by
  intro ref _
  rw [outline?, outline?, h]

theorem keepsOutlines_write (place : Place) (value : Value) :
    store.KeepsOutlines (store.write place value) := by
  cases place <;> exact keepsOutlines_of_eq rfl

theorem keepsOutlines_addScope (kind : ScopeKind) (parent : Option (Ref .scope)) :
    store.KeepsOutlines (store.addScope kind parent).2 := by
  intro ref hs
  rw [outline?, outline?, get?_addScope, if_neg (ne_fresh_of_hasScope hs)]

theorem binds_define (scope : Ref .scope) (name : String) (value : Value) :
    Binds scope name store (store.define scope name value) := by
  intro ref _
  show ((store.scopes.modify scope _).get? ref).map Scope.outline = _
  rw [Heap.get?_modify]
  by_cases h : ref = scope
  · subst h
    rw [if_pos rfl, if_pos rfl, outline?, Option.map_map, Option.map_map]
    exact congrArg (Option.map · _) (funext fun s => s.outline_insert name value)
  · rw [if_neg (Ne.symm h), if_neg h]
    rfl

theorem keepsOutlines_putReturn (scope : Ref .scope) (value : Option Value) :
    store.KeepsOutlines (store.putReturn scope value) := by
  intro ref _
  show ((store.scopes.modify (store.boundary scope) _).get? ref).map Scope.outline = _
  rw [Heap.get?_modify]
  by_cases h : store.boundary scope = ref
  · rw [if_pos h, ← h, outline?, Option.map_map]
    rfl
  · rw [if_neg h]
    rfl

/-- A name that is assigned to is bound in the scope that owns it. -/
theorem keepsOutlines_assign {scope owner : Ref .scope} {name : String}
    (howner : store.owner? scope name = some owner) (value : Value) :
    store.KeepsOutlines (store.define owner name value) := by
  refine (binds_define owner name value).keeps fun o ho => ?_
  have hbound : (store.binding? owner name).isSome := by
    rw [owner?] at howner
    simpa using List.find?_some howner
  obtain ⟨s, hs, rfl⟩ := Option.map_eq_some_iff.1 ho
  rw [binding?, hs] at hbound
  exact (Assoc.isSome_get?_iff s.bindings name).1 hbound

end Changes

end Store

end Script
