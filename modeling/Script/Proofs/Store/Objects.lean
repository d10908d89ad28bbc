import Script.Operation
import Mathlib.Logic.Relation

/-!
# Objects and what they refer to

The scopes, arrays, maps and functions of a store are its *objects*. An object refers to others: a
scope to the scope around it, to what its names are bound to and to a pending return, an array or a
map to what it holds, a function to the scope that it was made in. Keys of maps refer to nothing.

* `Store.children`: what an object refers to, and `Store.Reaches`: what it leads to.
* `Store.Has`, `Store.Same`: an object that exists, and one that is the same in two stores.
* `children_addArray` and the like: what the operations on stores do to the objects.
-/

namespace Script

/-- An object of a store, by its reference. -/
inductive Object where
  | scope (ref : Ref .scope)
  | array (ref : Ref .array)
  | map (ref : Ref .map)
  | closure (ref : Ref .closure)
deriving DecidableEq

/-- What a value refers to: one object, or none. -/
def Value.objects : Value → List Object
  | .array ref => [.array ref]
  | .map ref => [.map ref]
  | .function ref => [.closure ref]
  | _ => []

/-- What a table holds under its keys. -/
def Table.values (table : Table) : List Value :=
  table.pairs.map Prod.snd

/-- What the values of a table refer to. -/
def Table.objects (table : Table) : List Object :=
  table.pairs.flatMap (·.2.objects)

theorem Table.flatMap_values (table : Table) :
    table.values.flatMap Value.objects = table.objects := by
  rw [values, objects, List.flatMap_map]

/-- What a scope refers to. -/
def Scope.objects (scope : Scope) : List Object :=
  scope.parent.toList.map .scope ++ scope.bindings.pairs.flatMap (·.2.objects) ++
    scope.returned.toList.flatMap Value.objects

namespace Store

/-- What an object refers to. An object that does not exist refers to nothing. -/
def children (store : Store) : Object → List Object
  | .scope ref => (store.scopes.get? ref).toList.flatMap Scope.objects
  | .array ref => (store.arrays.get? ref).toList.flatMap (·.flatMap Value.objects)
  | .map ref => (store.maps.get? ref).toList.flatMap Table.objects
  | .closure ref => (store.closures.get? ref).toList.map (.scope ·.scope)

/-- An object leads to another over any number of references. -/
def Reaches (store : Store) : Object → Object → Prop :=
  Relation.ReflTransGen fun o o' => o' ∈ store.children o

/-- An object exists. -/
def Has (store : Store) : Object → Prop
  | .scope ref => (store.scopes.get? ref).isSome
  | .array ref => (store.arrays.get? ref).isSome
  | .map ref => (store.maps.get? ref).isSome
  | .closure ref => (store.closures.get? ref).isSome

instance (store : Store) : DecidablePred store.Has
  | .scope ref => inferInstanceAs (Decidable ((store.scopes.get? ref).isSome = true))
  | .array ref => inferInstanceAs (Decidable ((store.arrays.get? ref).isSome = true))
  | .map ref => inferInstanceAs (Decidable ((store.maps.get? ref).isSome = true))
  | .closure ref => inferInstanceAs (Decidable ((store.closures.get? ref).isSome = true))

/-- An object is the same in two stores: a scope has the same kind, scope around it, bindings
and pending return, an array or a map the same contents, a function is made of the same. -/
def Same (before after : Store) : Object → Prop
  | .scope ref => after.scopes.get? ref = before.scopes.get? ref
  | .array ref => after.arrays.get? ref = before.arrays.get? ref
  | .map ref => after.maps.get? ref = before.maps.get? ref
  | .closure ref => after.closures.get? ref = before.closures.get? ref

section Same

variable {a b c : Store} {o : Object}

theorem Same.refl (a : Store) (o : Object) : a.Same a o := by
  cases o <;> rfl

theorem Same.trans (hab : a.Same b o) (hbc : b.Same c o) : a.Same c o := by
  cases o <;> exact Eq.trans hbc hab

theorem Same.has_iff (h : a.Same b o) : b.Has o ↔ a.Has o := by
  cases o <;> (simp only [Same] at h; simp only [Has, h])

theorem Same.children_eq (h : a.Same b o) : b.children o = a.children o := by
  cases o <;> (simp only [Same] at h; simp only [children, h])

end Same

end Store

/-! ### What operations change -/

/-- A heap changes in one object at most, and no object goes away. -/
structure Heap.ChangesAt {kind : ObjectKind} {α : Type} (before : Heap kind α) (target : Ref kind)
    (after : Heap kind α) : Prop where
  has : ∀ ref, (before.get? ref).isSome → (after.get? ref).isSome
  same : ∀ ref, ref ≠ target → after.get? ref = before.get? ref

namespace Heap

variable {kind : ObjectKind} {α : Type} (heap : Heap kind α)

theorem changesAt_alloc (object : α) : heap.ChangesAt heap.fresh (heap.alloc object) where
  has ref h := by
    rw [get?_alloc]
    split
    · rfl
    · exact h
  same ref h := by rw [get?_alloc, if_neg h]

theorem changesAt_modify (ref : Ref kind) (f : α → α) : heap.ChangesAt ref (heap.modify ref f) where
  has other h := by
    rw [get?_modify]
    split
    · next heq =>
      rw [heq, Option.isSome_map]
      exact h
    · exact h
  same other h := by rw [get?_modify, if_neg (Ne.symm h)]

theorem get?_fresh : heap.get? heap.fresh = none := by
  simp [get?, fresh]

theorem get?_alloc_fresh (object : α) : (heap.alloc object).get? heap.fresh = some object := by
  rw [get?_alloc, if_pos rfl]

theorem get?_modify_self (ref : Ref kind) (f : α → α) :
    (heap.modify ref f).get? ref = (heap.get? ref).map f := by
  rw [get?_modify, if_pos rfl]

end Heap

/-- A pair of a map into which a value was stored was there before or holds that value. -/
theorem Assoc.mem_put {κ α : Type} [DecidableEq κ] {key : κ} {value : α} {pair : κ × α} :
    ∀ {l : List (κ × α)}, pair ∈ Assoc.put key value l → pair ∈ l ∨ pair.2 = value
  | [], h => by
    obtain rfl := List.mem_singleton.1 h
    exact .inr rfl
  | (k, a) :: rest, h => by
    rw [Assoc.put] at h
    split at h
    · rcases List.mem_cons.1 h with rfl | h
      · exact .inr rfl
      · exact .inl (List.mem_cons_of_mem _ h)
    · rcases List.mem_cons.1 h with rfl | h
      · exact .inl List.mem_cons_self
      · exact (Assoc.mem_put h).imp_left (List.mem_cons_of_mem _)

namespace Store

/-- A store changes in one object at most, and no object goes away. -/
structure ChangesAt (before : Store) (target : Object) (after : Store) : Prop where
  has : ∀ o, before.Has o → after.Has o
  same : ∀ o, o ≠ target → before.Same after o

variable {store : Store} {o : Object}

theorem changesAt_scopes {ref : Ref .scope} {scopes : Heap .scope Scope}
    (h : store.scopes.ChangesAt ref scopes) :
    store.ChangesAt (.scope ref) { store with scopes := scopes } where
  has o ho := by
    cases o with
    | scope other => exact h.has other ho
    | _ => exact ho
  same o ho := by
    cases o with
    | scope other => exact h.same other fun e => ho (e ▸ rfl)
    | _ => rfl

theorem changesAt_arrays {ref : Ref .array} {arrays : Heap .array (List Value)}
    (h : store.arrays.ChangesAt ref arrays) :
    store.ChangesAt (.array ref) { store with arrays := arrays } where
  has o ho := by
    cases o with
    | array other => exact h.has other ho
    | _ => exact ho
  same o ho := by
    cases o with
    | array other => exact h.same other fun e => ho (e ▸ rfl)
    | _ => rfl

theorem changesAt_maps {ref : Ref .map} {maps : Heap .map Table}
    (h : store.maps.ChangesAt ref maps) :
    store.ChangesAt (.map ref) { store with maps := maps } where
  has o ho := by
    cases o with
    | map other => exact h.has other ho
    | _ => exact ho
  same o ho := by
    cases o with
    | map other => exact h.same other fun e => ho (e ▸ rfl)
    | _ => rfl

theorem changesAt_closures {ref : Ref .closure} {closures : Heap .closure Closure}
    (h : store.closures.ChangesAt ref closures) :
    store.ChangesAt (.closure ref) { store with closures := closures } where
  has o ho := by
    cases o with
    | closure other => exact h.has other ho
    | _ => exact ho
  same o ho := by
    cases o with
    | closure other => exact h.same other fun e => ho (e ▸ rfl)
    | _ => rfl

/-- A store gains one object, and nothing else changes. -/
structure AddsAt (before : Store) (target : Object) (after : Store) : Prop
    extends before.ChangesAt target after where
  new : ¬ before.Has target
  has_target : after.Has target

theorem addsAt_addScope (kind : ScopeKind) (parent : Option (Ref .scope)) :
    store.AddsAt (.scope store.scopes.fresh) (store.addScope kind parent).2 where
  toChangesAt := changesAt_scopes (store.scopes.changesAt_alloc _)
  new := by simp [Has, Heap.get?_fresh]
  has_target := by simp [Has, addScope, Heap.get?_alloc_fresh]

theorem addsAt_addArray (elements : List Value) :
    store.AddsAt (.array store.arrays.fresh) (store.addArray elements).2 where
  toChangesAt := changesAt_arrays (store.arrays.changesAt_alloc _)
  new := by simp [Has, Heap.get?_fresh]
  has_target := by simp [Has, addArray, Heap.get?_alloc_fresh]

theorem addsAt_addMap (table : Table) :
    store.AddsAt (.map store.maps.fresh) (store.addMap table).2 where
  toChangesAt := changesAt_maps (store.maps.changesAt_alloc _)
  new := by simp [Has, Heap.get?_fresh]
  has_target := by simp [Has, addMap, Heap.get?_alloc_fresh]

theorem addsAt_addClosure (closure : Closure) :
    store.AddsAt (.closure store.closures.fresh) (store.addClosure closure).2 where
  toChangesAt := changesAt_closures (store.closures.changesAt_alloc _)
  new := by simp [Has, Heap.get?_fresh]
  has_target := by simp [Has, addClosure, Heap.get?_alloc_fresh]

/-! ### What operations let an object refer to -/

theorem children_addScope (kind : ScopeKind) (parent : Option (Ref .scope)) :
    (store.addScope kind parent).2.children (.scope store.scopes.fresh) =
      parent.toList.map .scope := by
  simp [children, addScope, Heap.get?_alloc_fresh, Scope.objects, EmptyCollection.emptyCollection,
    Assoc.empty]

theorem children_addArray (elements : List Value) :
    (store.addArray elements).2.children (.array store.arrays.fresh) =
      elements.flatMap Value.objects := by
  simp [children, addArray, Heap.get?_alloc_fresh]

theorem children_addMap (table : Table) :
    (store.addMap table).2.children (.map store.maps.fresh) = table.objects := by
  simp [children, addMap, Heap.get?_alloc_fresh]

theorem children_addClosure (closure : Closure) :
    (store.addClosure closure).2.children (.closure store.closures.fresh) =
      [.scope closure.scope] := by
  simp [children, addClosure, Heap.get?_alloc_fresh]

theorem children_scope {ref : Ref .scope} {scope : Scope} (h : store.scopes.get? ref = some scope) :
    store.children (.scope ref) = scope.objects := by
  simp [children, h]

theorem mem_children_modifyScope {ref : Ref .scope} {f : Scope → Scope}
    (h : o ∈ children { store with scopes := store.scopes.modify ref f } (.scope ref)) :
    ∃ scope, store.scopes.get? ref = some scope ∧ o ∈ (f scope).objects := by
  simp only [children, Heap.get?_modify_self, List.mem_flatMap, Option.mem_toList,
    Option.map_eq_some_iff] at h
  obtain ⟨_, ⟨scope, hscope, rfl⟩, ho⟩ := h
  exact ⟨scope, hscope, ho⟩

theorem mem_objects_insert {κ : Type} [DecidableEq κ] {m : Assoc κ Value} {key : κ}
    {value : Value} (h : o ∈ (m.insert key value).pairs.flatMap (·.2.objects)) :
    o ∈ m.pairs.flatMap (·.2.objects) ∨ o ∈ value.objects := by
  obtain ⟨pair, hpair, ho⟩ := List.mem_flatMap.1 h
  rcases Assoc.mem_put hpair with hpair | hvalue
  · exact .inl (List.mem_flatMap.2 ⟨pair, hpair, ho⟩)
  · exact .inr (hvalue ▸ ho)

/-- A scope in which a name is bound refers to nothing new but the value. -/
theorem mem_children_define {ref : Ref .scope} {name : String} {value : Value}
    (h : o ∈ (store.define ref name value).children (.scope ref)) :
    o ∈ store.children (.scope ref) ∨ o ∈ value.objects := by
  obtain ⟨scope, hscope, ho⟩ := mem_children_modifyScope h
  rw [children_scope hscope]
  simp only [Scope.objects, List.mem_append] at ho ⊢
  rcases ho with (ho | ho) | ho
  · exact .inl (.inl (.inl ho))
  · exact (mem_objects_insert ho).imp_left fun ho => .inl (.inr ho)
  · exact .inl (.inr ho)

/-- A scope whose pending return changes refers to nothing new but what is put there. -/
theorem mem_children_putReturn {ref : Ref .scope} {value : Option Value}
    (h : o ∈ (store.putReturn ref value).children (.scope (store.boundary ref))) :
    o ∈ store.children (.scope (store.boundary ref)) ∨
      o ∈ value.toList.flatMap Value.objects := by
  obtain ⟨scope, hscope, ho⟩ := mem_children_modifyScope h
  rw [children_scope hscope]
  simp only [Scope.objects, List.mem_append] at ho ⊢
  rcases ho with ho | ho
  · exact .inl (.inl ho)
  · exact .inr ho

theorem mem_children_setElement {ref : Ref .array} {position : Nat} {value : Value}
    (h : o ∈ (store.setElement ref position value).children (.array ref)) :
    o ∈ store.children (.array ref) ∨ o ∈ value.objects := by
  simp only [children, setElement, Heap.get?_modify_self, List.mem_flatMap, Option.mem_toList,
    Option.map_eq_some_iff] at h ⊢
  obtain ⟨_, ⟨elements, helements, rfl⟩, v, hv, ho⟩ := h
  rcases List.mem_or_eq_of_mem_set hv with hv | rfl
  · exact .inl ⟨elements, helements, v, hv, ho⟩
  · exact .inr ho

theorem mem_children_insert {ref : Ref .map} {key : Key} {value : Value}
    (h : o ∈ (store.modifyTable ref (Assoc.insert · key value)).children (.map ref)) :
    o ∈ store.children (.map ref) ∨ o ∈ value.objects := by
  simp only [children, modifyTable, Heap.get?_modify_self, List.mem_flatMap, Option.mem_toList,
    Option.map_eq_some_iff] at h ⊢
  obtain ⟨_, ⟨table, htable, rfl⟩, ho⟩ := h
  exact (mem_objects_insert ho).imp_left fun ho => ⟨table, htable, ho⟩

/-! ### What is read is referred to -/

theorem mem_children_parent {ref parent : Ref .scope} {scope : Scope}
    (h : store.scopes.get? ref = some scope) (hp : scope.parent = some parent) :
    .scope parent ∈ store.children (.scope ref) := by
  rw [children_scope h]
  simp [Scope.objects, hp]

theorem mem_children_returned {ref : Ref .scope} {scope : Scope} {value : Value}
    (h : store.scopes.get? ref = some scope) (hr : scope.returned = some value)
    (ho : o ∈ value.objects) : o ∈ store.children (.scope ref) := by
  rw [children_scope h]
  simp [Scope.objects, hr, ho]

theorem mem_objects_of_get? {κ : Type} [DecidableEq κ] {m : Assoc κ Value} {key : κ} {value : Value}
    (h : m.get? key = some value) (ho : o ∈ value.objects) :
    o ∈ m.pairs.flatMap (·.2.objects) := by
  have hpair : (key, value) ∈ m.pairs := Assoc.mem_of_find? h
  exact List.mem_flatMap.2 ⟨_, hpair, ho⟩

theorem mem_children_binding {ref : Ref .scope} {name : String} {value : Value}
    (h : store.binding? ref name = some value) (ho : o ∈ value.objects) :
    o ∈ store.children (.scope ref) := by
  obtain ⟨scope, hscope, hvalue⟩ := Option.bind_eq_some_iff.1 h
  rw [children_scope hscope, Scope.objects, List.mem_append, List.mem_append]
  exact .inl (.inr (mem_objects_of_get? hvalue ho))

theorem mem_children_elements {ref : Ref .array} {value : Value} (h : value ∈ store.elements ref)
    (ho : o ∈ value.objects) : o ∈ store.children (.array ref) := by
  rw [elements] at h
  cases helements : store.arrays.get? ref with
  | none => simp [helements] at h
  | some elements =>
    rw [helements] at h
    simpa [children, helements] using ⟨value, h, ho⟩

theorem mem_of_mem_objects_getD {elements : List Value} {position : Nat}
    (ho : o ∈ (elements.getD position .null).objects) :
    elements.getD position .null ∈ elements := by
  rw [List.getD_eq_getElem?_getD] at ho ⊢
  cases hvalue : elements[position]? with
  | none =>
    rw [hvalue] at ho
    cases ho
  | some value => exact List.mem_of_getElem? hvalue

/-- A place lies in the object that was indexed. -/
theorem place_cases {target key : Value} {place : Place} (h : store.place target key = .ok place) :
    (∃ ref position, target = .array ref ∧ place = .element ref position) ∨
      ∃ ref k, target = .map ref ∧ place = .entry ref k := by
  cases target with
  | array ref =>
    rw [Store.place] at h
    -- No place without a position inside the array.
    cases hposition : key.position (store.elements ref).length with
    | error cause =>
      rw [hposition] at h
      cases h
    | ok position =>
      rw [hposition] at h
      obtain rfl := Except.ok.inj h
      exact .inl ⟨ref, position, rfl, rfl⟩
  | map ref =>
    rw [Store.place] at h
    cases hkey : key.key? with
    | none =>
      rw [hkey] at h
      cases h
    | some k =>
      rw [hkey] at h
      obtain rfl := Except.ok.inj h
      exact .inr ⟨ref, k, rfl, rfl⟩
  | _ => cases h

theorem mem_children_table {ref : Ref .map} {key : Key} {value : Value}
    (h : (store.table ref).get? key = some value) (ho : o ∈ value.objects) :
    o ∈ store.children (.map ref) := by
  rw [table] at h
  cases htable : store.maps.get? ref with
  | none =>
    simp [htable, EmptyCollection.emptyCollection, Assoc.empty, Assoc.get?, Assoc.find?] at h
  | some table =>
    rw [htable] at h
    simpa [children, htable, Table.objects] using mem_objects_of_get? h ho

end Store

/-- A result that a function was applied to without an error came without one. -/
theorem exists_of_map_eq_ok {ε α β : Type} {f : α → β} {r : Except ε α} {b : β}
    (h : r.map f = .ok b) : ∃ a, r = .ok a ∧ f a = b := by
  cases r with
  | error e => cases h
  | ok a => exact ⟨a, rfl, Except.ok.inj h⟩

end Script
