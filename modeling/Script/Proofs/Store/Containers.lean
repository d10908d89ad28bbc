import Script.Proofs.Store.Authority

/-!
# Arrays and maps over time

Arrays and maps are *containers*. What may happen to one is little: a value is put into a place that
an index points to. That changes the container of the place and no other object, and in it one
element or one key; an array keeps its length, and a map its keys, to which one may be added.

* `Store.KeepsContainers`: all containers that there were are as they were;
* `Store.assigned_write`: a value put into a place changes one element or one key;
* `Store.KeepsShape`: what stays of a container even then.
-/

namespace Script

/-- An object is a container: an array or a map. -/
def Object.IsContainer : Object → Prop
  | .scope _ => False
  | .array _ => True
  | .map _ => True
  | .closure _ => False

/-- The container that a place lies in. -/
def Place.container : Place → Object
  | .element ref _ => .array ref
  | .entry ref _ => .map ref

namespace Store

variable {a b c store : Store} {o : Object}

/-! ### Containers that stay as they are -/

/-- All containers that there were are as they were. -/
def KeepsContainers (before after : Store) : Prop :=
  ∀ o, o.IsContainer → before.Has o → before.Same after o

namespace KeepsContainers

theorem refl (a : Store) : a.KeepsContainers a :=
  fun o _ _ => .refl a o

theorem trans (hab : a.KeepsContainers b) (hbc : b.KeepsContainers c) : a.KeepsContainers c := by
  intro o hcontainer hhas
  have hsame := hab o hcontainer hhas
  exact hsame.trans (hbc o hcontainer (hsame.has_iff.2 hhas))

/-- A change of scopes or functions touches no container. -/
theorem of_eq (harrays : b.arrays = a.arrays) (hmaps : b.maps = a.maps) : a.KeepsContainers b := by
  intro o hcontainer _
  cases o with
  | array ref => exact congrArg (·.get? ref) harrays
  | map ref => exact congrArg (·.get? ref) hmaps
  | _ => cases hcontainer

end KeepsContainers

/-- A new object leaves all others as they were. -/
theorem AddsAt.same_of_has {target : Object} (h : a.AddsAt target b) (ho : a.Has o) :
    a.Same b o := by
  refine h.same o ?_
  rintro rfl
  exact h.new ho

theorem AddsAt.keepsContainers {target : Object} (h : a.AddsAt target b) : a.KeepsContainers b :=
  fun _ _ ho => h.same_of_has ho

/-! ### One element or one key -/

/-- A place is given a value. No object changes but the container of the place. Of an array, only
the element at the position changes, and it has as many as before. Of a map, only the value under
the key changes; the keys stay, in their order, and the key comes last if it is a new one. -/
structure Assigned (before : Store) (place : Place) (value : Value) (after : Store) : Prop where
  others : ∀ o, o ≠ place.container → before.Same after o
  inside : match place with
    | .element ref position => ∃ es es' : List Value, before.arrays.get? ref = some es ∧
        after.arrays.get? ref = some es' ∧ position < es.length ∧ es'.length = es.length ∧
        es'[position]? = some value ∧ ∀ i, i ≠ position → es'[i]? = es[i]?
    | .entry ref key => ∃ table table' : Table, before.maps.get? ref = some table ∧
        after.maps.get? ref = some table' ∧ table'.get? key = some value ∧
        (∀ k, k ≠ key → table'.get? k = table.get? k) ∧
        table'.keys = if key ∈ table.keys then table.keys else table.keys ++ [key]

theorem lt_of_position {key : Value} {length position : Nat}
    (h : key.position length = .ok position) : position < length := by
  cases key with
  | integer i =>
    simp only [Value.position] at h
    split at h
    · cases h
      omega
    · cases h
  | _ => cases h

theorem position_lt_of_place {target key : Value} {ref : Ref .array} {position : Nat}
    (h : store.place target key = .ok (.element ref position)) :
    position < (store.elements ref).length := by
  obtain ⟨ref', _, rfl, heq⟩ | ⟨_, _, -, heq⟩ := place_cases h
  · cases heq
    rw [place] at h
    cases hposition : key.position (store.elements ref).length with
    | ok found =>
      rw [hposition] at h
      cases h
      exact lt_of_position hposition
    | error cause =>
      rw [hposition] at h
      cases h
  · cases heq

/-- **A value put into a place** that an index points to, in a container that there is. -/
theorem assigned_write {target key : Value} {place : Place} (h : store.place target key = .ok place)
    (hhas : store.Has place.container) (value : Value) :
    store.Assigned place value (store.write place value) := by
  cases place with
  | element ref position =>
    obtain ⟨es, hes⟩ := Option.isSome_iff_exists.1 hhas
    -- The place was found in this array, so it lies within it.
    have hlt := position_lt_of_place h
    rw [elements, hes, Option.getD_some] at hlt
    refine ⟨(changesAt_arrays (store.arrays.changesAt_modify ref _)).same, es,
      es.set position value, hes, ?_, hlt, List.length_set, ?_, fun i hi => ?_⟩
    · show (store.arrays.modify ref _).get? ref = _
      rw [Heap.get?_modify_self, hes, Option.map_some]
    · rw [List.getElem?_set_self hlt]
    · rw [List.getElem?_set_ne hi.symm]
  | entry ref key =>
    obtain ⟨table, htable⟩ := Option.isSome_iff_exists.1 hhas
    refine ⟨(changesAt_maps (store.maps.changesAt_modify ref _)).same, table,
      Assoc.insert table key value, htable, ?_, ?_, fun k hk => ?_, table.keys_insert key value⟩
    · show (store.maps.modify ref _).get? ref = _
      rw [Heap.get?_modify_self, htable, Option.map_some]
    · rw [Assoc.get?_insert, if_pos rfl]
    · rw [Assoc.get?_insert, if_neg hk.symm]

/-! ### What stays of a container -/

/-- A container keeps its shape: an array its length, a map its keys in their order, to which
others may be added after them. -/
def KeepsShape (before after : Store) : Object → Prop
  | .scope _ => True
  | .array ref => ∀ es, before.arrays.get? ref = some es →
      ∃ es', after.arrays.get? ref = some es' ∧ es'.length = es.length
  | .map ref => ∀ table, before.maps.get? ref = some table →
      ∃ table', after.maps.get? ref = some table' ∧ table.keys <+: table'.keys ∧
        table.size ≤ table'.size
  | .closure _ => True

namespace KeepsShape

theorem refl (a : Store) (o : Object) : a.KeepsShape a o := by
  cases o with
  | array ref => exact fun es hes => ⟨es, hes, rfl⟩
  | map ref => exact fun table htable => ⟨table, htable, List.prefix_rfl, Nat.le_refl _⟩
  | _ => trivial

theorem trans (hab : a.KeepsShape b o) (hbc : b.KeepsShape c o) : a.KeepsShape c o := by
  cases o with
  | array ref =>
    intro es hes
    obtain ⟨es', hes', hlength⟩ := hab es hes
    obtain ⟨es'', hes'', hlength'⟩ := hbc es' hes'
    exact ⟨es'', hes'', hlength'.trans hlength⟩
  | map ref =>
    intro table htable
    obtain ⟨table', htable', hkeys, hsize⟩ := hab table htable
    obtain ⟨table'', htable'', hkeys', hsize'⟩ := hbc table' htable'
    exact ⟨table'', htable'', hkeys.trans hkeys', Nat.le_trans hsize hsize'⟩
  | _ => trivial

theorem of_same (h : a.Same b o) : a.KeepsShape b o := by
  cases o with
  | array ref => exact fun es hes => ⟨es, Eq.trans h hes, rfl⟩
  | map ref => exact fun table htable => ⟨table, Eq.trans h htable, List.prefix_rfl, Nat.le_refl _⟩
  | _ => trivial

end KeepsShape

theorem KeepsContainers.keepsShape (h : a.KeepsContainers b) (o : Object) : a.KeepsShape b o := by
  by_cases hhas : a.Has o
  · cases o with
    | array ref => exact .of_same (h _ trivial hhas)
    | map ref => exact .of_same (h _ trivial hhas)
    | _ => trivial
  · -- nothing is said of a container that did not exist
    cases o with
    | array ref =>
      intro es hes
      exact absurd (Option.isSome_of_eq_some hes) hhas
    | map ref =>
      intro table htable
      exact absurd (Option.isSome_of_eq_some htable) hhas
    | _ => trivial

theorem Assigned.keepsShape {place : Place} {value : Value} (h : a.Assigned place value b)
    (o : Object) : a.KeepsShape b o := by
  by_cases ho : o = place.container
  · subst ho
    have hinside := h.inside
    cases place with
    | element ref position =>
      obtain ⟨es, es', hes, hes', -, hlength, -⟩ := hinside
      intro found hfound
      cases hes.symm.trans hfound
      exact ⟨es', hes', hlength⟩
    | entry ref key =>
      obtain ⟨table, table', htable, htable', -, -, hkeys⟩ := hinside
      intro found hfound
      cases htable.symm.trans hfound
      -- A key that was there stays where it is, and a new one comes last.
      have hprefix : table.keys <+: table'.keys := by
        rw [hkeys]
        split
        · exact List.prefix_rfl
        · exact List.prefix_append _ _
      refine ⟨table', htable', hprefix, ?_⟩
      simpa [Assoc.keys, Assoc.size] using hprefix.length_le
  · exact .of_same (h.others o ho)

end Store

end Script
