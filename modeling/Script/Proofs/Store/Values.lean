import Script.Proofs.Operation
import Script.Proofs.Store.Returns

/-!
# What a store holds

Scripts meet values of all types but one: the value that tells of an error is for whoever runs a
script. All other values are *ordinary*. A store is *proper* if it holds nothing else, in bindings,
in pending returns and in containers, and if its links lead from a scope to an older one. Every
change of a store by ordinary values keeps it proper, and what is read from it is ordinary again; so
are the results of operators and of built-in functions.

* `Store.values`: what an object holds;
* `Store.Proper.change`: a change of one object, and `Store.Proper.define` and the like;
* `Store.Proper.ordinary_lookup?` and the like: what is read from a store;
* `Store.Proper.ordinary_result`: what built-in functions give;
* `Store.WellFormed.acyclic`: the scopes around a scope form no cycle.
-/

namespace Script

/-! ### Ordinary values -/

/-- A value that scripts may meet: any but the one that tells of an error. -/
def Value.Ordinary (v : Value) : Prop :=
  v.type ≠ .error

instance : DecidablePred Value.Ordinary :=
  fun v => inferInstanceAs (Decidable (v.type ≠ .error))

/-- Values that are all ordinary. -/
def AllOrdinary (values : List Value) : Prop :=
  ∀ v ∈ values, v.Ordinary

theorem Value.ordinary_null : Value.null.Ordinary := by
  decide

theorem Value.Hashable.ordinary {v : Value} (h : v.Hashable) : v.Ordinary := by
  intro herror
  rw [Value.Hashable, herror] at h
  simp at h

section AllOrdinary

variable {values more : List Value} {v : Value}

theorem allOrdinary_nil : AllOrdinary [] := by
  simp [AllOrdinary]

theorem allOrdinary_cons (hv : v.Ordinary) (h : AllOrdinary values) : AllOrdinary (v :: values) :=
  List.forall_mem_cons.2 ⟨hv, h⟩

theorem allOrdinary_singleton (hv : v.Ordinary) : AllOrdinary [v] :=
  allOrdinary_cons hv allOrdinary_nil

theorem allOrdinary_append (h : AllOrdinary values) (hmore : AllOrdinary more) :
    AllOrdinary (values ++ more) :=
  List.forall_mem_append.2 ⟨h, hmore⟩

/-- A value that is found among others, or null, is ordinary if they are. -/
theorem AllOrdinary.getD_null (h : AllOrdinary values) {found : Option Value}
    (hfound : ∀ value, found = some value → value ∈ values) : (found.getD .null).Ordinary := by
  cases found with
  | none => exact Value.ordinary_null
  | some value => exact h value (hfound value rfl)

end AllOrdinary

/-! ### What objects hold -/

/-- What a scope holds: what its names are bound to, and a pending return. -/
def Scope.values (scope : Scope) : List Value :=
  scope.bindings.pairs.map Prod.snd ++ scope.returned.toList

theorem Assoc.mem_values_of_get? {κ : Type} [DecidableEq κ] {m : Assoc κ Value} {key : κ}
    {value : Value} (h : m.get? key = some value) : value ∈ m.pairs.map Prod.snd :=
  List.mem_map.2 ⟨(key, value), Assoc.mem_of_find? h, rfl⟩

theorem Assoc.allOrdinary_insert {κ : Type} [DecidableEq κ] {m : Assoc κ Value} {value : Value}
    (h : AllOrdinary (m.pairs.map Prod.snd)) (key : κ) (hvalue : value.Ordinary) :
    AllOrdinary ((m.insert key value).pairs.map Prod.snd) := by
  intro v hv
  obtain ⟨pair, hpair, rfl⟩ := List.mem_map.1 hv
  rcases Assoc.mem_put hpair with hpair | hnew
  · exact h _ (List.mem_map_of_mem hpair)
  · exact hnew ▸ hvalue

namespace Store

/-- What an object holds. A function holds no value, but the scope that it was made in. -/
def values (store : Store) : Object → List Value
  | .scope ref => (store.scopes.get? ref).toList.flatMap Scope.values
  | .array ref => store.elements ref
  | .map ref => Table.values (store.table ref)
  | .closure _ => []

variable {store after : Store}

theorem Same.values_eq {o : Object} (h : store.Same after o) : after.values o = store.values o := by
  cases o <;> simp_all [Same, values, elements, table]

theorem values_scope {ref : Ref .scope} {scope : Scope} (h : store.scopes.get? ref = some scope) :
    store.values (.scope ref) = scope.values := by
  simp [values, h]

/-- A scope that is changed holds what the change lets it hold. -/
theorem allOrdinary_modifyScope {ref : Ref .scope} {f : Scope → Scope}
    (h : ∀ scope, store.scopes.get? ref = some scope → AllOrdinary (f scope).values) :
    AllOrdinary (values { store with scopes := store.scopes.modify ref f } (.scope ref)) := by
  intro v hv
  simp only [values, Heap.get?_modify_self, List.mem_flatMap, Option.mem_toList,
    Option.map_eq_some_iff] at hv
  obtain ⟨_, ⟨scope, hscope, rfl⟩, hv⟩ := hv
  exact h scope hscope v hv

/-! ### Proper stores -/

/-- A store that holds ordinary values only, and whose links lead to older scopes. -/
structure Proper (store : Store) : Prop where
  wellFormed : store.WellFormed
  ordinary : ∀ o, AllOrdinary (store.values o)

theorem proper_empty : empty.Proper where
  wellFormed := wellFormed_empty
  ordinary o := by
    cases o <;> simp [AllOrdinary, values, elements, table, Table.values, empty, Heap.get?,
      EmptyCollection.emptyCollection, Heap.empty, Assoc.empty]

namespace Proper

variable (h : store.Proper)
include h

/-- **One object changes**, and holds ordinary values afterwards. -/
theorem change (hw : after.WellFormed) {target : Object} (hchange : store.ChangesAt target after)
    (hvalues : AllOrdinary (after.values target)) : after.Proper where
  wellFormed := hw
  ordinary o := by
    by_cases ho : o = target
    · exact ho ▸ hvalues
    · rw [(hchange.same o ho).values_eq]
      exact h.ordinary o

theorem ordinary_scope {ref : Ref .scope} {scope : Scope}
    (hscope : store.scopes.get? ref = some scope) : AllOrdinary scope.values :=
  values_scope hscope ▸ h.ordinary (.scope ref)

/-! #### What is read -/

theorem ordinary_binding? {ref : Ref .scope} {name : String} {value : Value}
    (hvalue : store.binding? ref name = some value) : value.Ordinary := by
  obtain ⟨scope, hscope, hvalue⟩ := Option.bind_eq_some_iff.1 hvalue
  exact h.ordinary_scope hscope value
    (List.mem_append_left _ (Assoc.mem_values_of_get? hvalue))

theorem ordinary_lookup? {ref : Ref .scope} {name : String} {value : Value}
    (hvalue : store.lookup? ref name = some value) : value.Ordinary := by
  obtain ⟨owner, -, hvalue⟩ := Option.bind_eq_some_iff.1 hvalue
  exact h.ordinary_binding? hvalue

theorem ordinary_pendingReturn? {ref : Ref .scope} {value : Value}
    (hvalue : store.pendingReturn? ref = some value) : value.Ordinary := by
  obtain ⟨scope, hscope, hvalue⟩ := Option.bind_eq_some_iff.1 hvalue
  exact h.ordinary_scope hscope value (List.mem_append_right _ (Option.mem_toList.2 hvalue))

theorem ordinary_index {target key value : Value} (hvalue : store.index target key = .ok value) :
    value.Ordinary := by
  rw [index] at hvalue
  split at hvalue
  · next ref position _ =>
    obtain rfl := Except.ok.inj hvalue
    rw [List.getD_eq_getElem?_getD]
    exact AllOrdinary.getD_null (h.ordinary (.array ref)) fun _ => List.mem_of_getElem?
  · next ref k _ =>
    split at hvalue
    · next found hfound =>
      obtain rfl := Except.ok.inj hvalue
      exact h.ordinary (.map ref) found (Assoc.mem_values_of_get? hfound)
    · cases hvalue
  · cases hvalue

/-- A built-in function gives ordinary values, for it gives what was at hand. -/
theorem ordinary_result {b : Builtin} {arguments : List Value} {result : Builtin.Result}
    (harguments : AllOrdinary arguments) (hresult : b.result store arguments = .ok result) :
    AllOrdinary result.values := by
  intro v hv
  rcases Builtin.mem_values_result hresult hv with rfl | hhashable | hv | ⟨ref, -, hv⟩
  · exact Value.ordinary_null
  · exact hhashable.ordinary
  · exact harguments v hv
  · exact h.ordinary (.array ref) v hv

/-! #### What is changed -/

theorem addScope (kind : ScopeKind) {parent : Option (Ref .scope)}
    (hparent : ∀ p, parent = some p → store.HasScope p) :
    (store.addScope kind parent).2.Proper := by
  refine h.change (wellFormed_addScope h.wellFormed kind hparent)
    (addsAt_addScope kind parent).toChangesAt ?_
  have hnew : (store.addScope kind parent).2.scopes.get? store.scopes.fresh =
      some ⟨kind, parent, ∅, none⟩ := Heap.get?_alloc_fresh ..
  rw [values_scope hnew]
  exact allOrdinary_nil

theorem addArray {elements : List Value} (helements : AllOrdinary elements) :
    (store.addArray elements).2.Proper := by
  refine h.change (wellFormed_of_eq h.wellFormed rfl rfl) (addsAt_addArray elements).toChangesAt ?_
  have hnew : (store.addArray elements).2.values (.array store.arrays.fresh) = elements := by
    simp [values, Store.elements, Store.addArray, Heap.get?_alloc_fresh]
  rw [hnew]
  exact helements

theorem addMap {table : Table} (htable : AllOrdinary table.values) :
    (store.addMap table).2.Proper := by
  refine h.change (wellFormed_of_eq h.wellFormed rfl rfl) (addsAt_addMap table).toChangesAt ?_
  have hnew : (store.addMap table).2.values (.map store.maps.fresh) = table.values := by
    simp [values, Store.table, Store.addMap, Heap.get?_alloc_fresh]
  rw [hnew]
  exact htable

theorem addClosure {closure : Closure} (hscope : store.HasScope closure.scope) :
    (store.addClosure closure).2.Proper :=
  h.change (wellFormed_addClosure h.wellFormed hscope) (addsAt_addClosure closure).toChangesAt
    allOrdinary_nil

theorem define (ref : Ref .scope) (name : String) {value : Value} (hvalue : value.Ordinary) :
    (store.define ref name value).Proper := by
  refine h.change (wellFormed_modify h.wellFormed ref (fun _ => rfl) fun _ => rfl)
    (changesAt_scopes (store.scopes.changesAt_modify ref _)) ?_
  refine allOrdinary_modifyScope fun scope hscope => ?_
  obtain ⟨hbindings, hreturned⟩ := List.forall_mem_append.1 (h.ordinary_scope hscope)
  exact allOrdinary_append (Assoc.allOrdinary_insert hbindings name hvalue) hreturned

theorem putReturn (ref : Ref .scope) {value : Option Value} (hvalue : AllOrdinary value.toList) :
    (store.putReturn ref value).Proper := by
  refine h.change (wellFormed_putReturn h.wellFormed ref value)
    (changesAt_scopes (store.scopes.changesAt_modify (store.boundary ref) _)) ?_
  refine allOrdinary_modifyScope fun scope hscope => ?_
  obtain ⟨hbindings, -⟩ := List.forall_mem_append.1 (h.ordinary_scope hscope)
  exact allOrdinary_append hbindings hvalue

theorem write (place : Place) {value : Value} (hvalue : value.Ordinary) :
    (store.write place value).Proper := by
  have hw : (store.write place value).WellFormed := by
    cases place <;> exact wellFormed_of_eq h.wellFormed rfl rfl
  cases place with
  | element ref position =>
    refine h.change hw (changesAt_arrays (store.arrays.changesAt_modify ref _)) fun v hv => ?_
    -- The array is the old one but for the element.
    have hset : (store.setElement ref position value).elements ref =
        (store.elements ref).set position value := by
      rw [elements, setElement, Heap.get?_modify_self, elements]
      cases store.arrays.get? ref <;> rfl
    change v ∈ (store.setElement ref position value).elements ref at hv
    rw [hset] at hv
    rcases List.mem_or_eq_of_mem_set hv with hv | rfl
    · exact h.ordinary (.array ref) v hv
    · exact hvalue
  | entry ref key =>
    refine h.change hw (changesAt_maps (store.maps.changesAt_modify ref _)) ?_
    -- The table is the old one with the entry put into it.
    have hold := h.ordinary (.map ref)
    change AllOrdinary (Table.values (((store.maps.modify ref _).get? ref).getD ∅))
    rw [Heap.get?_modify_self]
    rw [values, table] at hold
    cases htable : store.maps.get? ref with
    | none => exact allOrdinary_nil
    | some table =>
      rw [htable] at hold
      exact Assoc.allOrdinary_insert hold key hvalue

end Proper

/-! ### The scopes around a scope -/

/-- A scope is inside another that is right around it. -/
def Inside (store : Store) (ref outer : Ref .scope) : Prop :=
  (store.scopes.get? ref).bind Scope.parent = some outer

namespace WellFormed

variable (h : store.WellFormed)
include h

/-- All scopes around a scope are older. -/
theorem index_lt {ref outer : Ref .scope} (hinside : Relation.TransGen store.Inside ref outer) :
    outer.index < ref.index := by
  have hlt {ref outer : Ref .scope} (hinside : store.Inside ref outer) :
      outer.index < ref.index := by
    obtain ⟨scope, hscope, hparent⟩ := Option.bind_eq_some_iff.1 hinside
    exact h.parent_lt hscope hparent
  induction hinside with
  | single hinside => exact hlt hinside
  | tail _ hinside ih => exact Nat.lt_trans (hlt hinside) ih

/-- **No scope is inside itself**, over however many scopes. -/
theorem acyclic (ref : Ref .scope) : ¬ Relation.TransGen store.Inside ref ref :=
  fun hcycle => Nat.lt_irrefl _ (h.index_lt hcycle)

end WellFormed

end Store

end Script
