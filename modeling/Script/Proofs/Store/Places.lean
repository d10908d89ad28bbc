import Script.Proofs.HashTable
import Script.Proofs.Store.Containers

/-!
# What an index points to

Reading and writing look for the place of an index in one way. So an index has to lie in its array
on both occasions, whatever 64-bit number it is, and a key of a map has to be hashable; reading
needs besides that the key is there. A value that is put into a place is read back with any index
that is equal to the one it was put there with, and every other index reads what it read before.

* `Store.Points`: the place that a target and an index point to, if there is one;
* `Store.Refuses`: why there is none;
* `Store.Writable`, `Store.Readable`: where a value may be put, and where there is one;
* `Store.index_eq_ok_iff`: reading succeeds exactly there;
* `Store.assignedAt_write`: what indices read after a value was put into a place, and what stays.
-/

namespace Script

/-- A value is hashable if its type is that of a key. -/
def Value.Hashable (v : Value) : Prop :=
  v.type = .integer ∨ v.type = .boolean ∨ v.type = .string

theorem Key.hashable_toValue (k : Key) : k.toValue.Hashable := by
  cases k <;> simp [Value.Hashable, Key.toValue, Value.type]

theorem Value.hashable_iff {v : Value} : v.Hashable ↔ ∃ k : Key, v = k.toValue := by
  constructor
  · intro h
    cases v with
    | integer i => exact ⟨.integer i, rfl⟩
    | boolean b => exact ⟨.boolean b, rfl⟩
    | string s => exact ⟨.string s, rfl⟩
    | _ => simp [Hashable, type] at h
  · rintro ⟨k, rfl⟩
    exact k.hashable_toValue

theorem Value.Hashable.objects_eq_nil {v : Value} (h : v.Hashable) : v.objects = [] := by
  obtain ⟨k, rfl⟩ := hashable_iff.1 h
  cases k <;> rfl

theorem Value.key?_eq_none_iff {v : Value} : v.key? = none ↔ ¬ v.Hashable := by
  rw [hashable_iff, Option.eq_none_iff_forall_ne_some, not_exists]
  exact forall_congr' fun k => not_congr key?_eq_some_iff

namespace Store

/-! ### Places -/

/-- An integer lies in an array: it is at least zero and less than the length. -/
def LiesIn (store : Store) (ref : Ref .array) (i : Integer) : Prop :=
  0 ≤ Int64.toInt i ∧ Int64.toInt i < (store.elements ref).length

instance (store : Store) (ref : Ref .array) (i : Integer) : Decidable (store.LiesIn ref i) :=
  inferInstanceAs (Decidable (_ ∧ _))

/-- **A target and an index point to a place**: an integer to a position of an array that it lies
in, a hashable value to a key of a map. -/
inductive Points (store : Store) : Value → Value → Place → Prop
  | element {ref i} (h : store.LiesIn ref i) :
      Points store (.array ref) (.integer i) (.element ref (Int64.toInt i).toNat)
  | entry {ref} (key : Key) : Points store (.map ref) key.toValue (.entry ref key)

/-- **A target and an index point nowhere**, for a reason. -/
inductive Refuses (store : Store) : Value → Value → RuntimeCause → Prop
  | notIndexable {target} (index : Value) (harray : target.type ≠ .array)
      (hmap : target.type ≠ .map) : Refuses store target index (.notIndexable target.type)
  | nonIntegerIndex {ref index} (h : index.type ≠ .integer) :
      Refuses store (.array ref) index (.nonIntegerIndex index.type)
  | indexOutOfBounds {ref i} (h : ¬ store.LiesIn ref i) :
      Refuses store (.array ref) (.integer i) (.indexOutOfBounds i (store.elements ref).length)
  | keyNotHashable {ref index} (h : ¬ index.Hashable) :
      Refuses store (.map ref) index (.keyNotHashable index.type)

/-- A value may be put where an integer lies in an array, and under every hashable key of a
map. -/
def Writable (store : Store) : Value → Value → Prop
  | .array ref, index => ∃ i, index = .integer i ∧ store.LiesIn ref i
  | .map _, index => index.Hashable
  | _, _ => False

/-- There is a value where an integer lies in an array, and in a map where a key is stored that
is equal to the index. -/
def Readable (store : Store) : Value → Value → Prop
  | .array ref, index => ∃ i, index = .integer i ∧ store.LiesIn ref i
  | .map ref, index => ∃ key ∈ (store.table ref).keys, store.equal key.toValue index = true
  | _, _ => False

variable {store before after : Store} {target index value : Value} {place : Place}
  {cause : RuntimeCause} {ref : Ref .array}

theorem position_of_liesIn {i : Integer} (h : store.LiesIn ref i) :
    (Value.integer i).position (store.elements ref).length = .ok (Int64.toInt i).toNat :=
  if_pos h

theorem position_of_not_liesIn {i : Integer} (h : ¬ store.LiesIn ref i) :
    (Value.integer i).position (store.elements ref).length =
      .error (.indexOutOfBounds i (store.elements ref).length) :=
  if_neg h

theorem Points.place_eq (h : store.Points target index place) :
    store.place target index = .ok place := by
  cases h with
  | element h =>
    rw [Store.place, position_of_liesIn h]
    rfl
  | entry key => rw [Store.place, key.key?_toValue]

theorem Refuses.place_eq (h : store.Refuses target index cause) :
    store.place target index = .error cause := by
  cases h with
  | notIndexable _ harray hmap =>
    cases target with
    | array ref => exact absurd rfl harray
    | map ref => exact absurd rfl hmap
    | _ => rfl
  | nonIntegerIndex h =>
    cases index with
    | integer i => exact absurd rfl h
    | _ => rfl
  | indexOutOfBounds h =>
    rw [Store.place, position_of_not_liesIn h]
    rfl
  | keyNotHashable h => rw [Store.place, Value.key?_eq_none_iff.2 h]

/-- An index points somewhere or is refused. -/
theorem points_or_refuses (store : Store) (target index : Value) :
    (∃ place, store.Points target index place) ∨ ∃ cause, store.Refuses target index cause := by
  cases target with
  | array ref =>
    cases index with
    | integer i =>
      by_cases h : store.LiesIn ref i
      · exact .inl ⟨_, .element h⟩
      · exact .inr ⟨_, .indexOutOfBounds h⟩
    | _ => exact .inr ⟨_, .nonIntegerIndex (by simp [Value.type])⟩
  | map ref =>
    by_cases h : index.Hashable
    · obtain ⟨key, rfl⟩ := Value.hashable_iff.1 h
      exact .inl ⟨_, .entry key⟩
    · exact .inr ⟨_, .keyNotHashable h⟩
  | _ => exact .inr ⟨_, .notIndexable index (by simp [Value.type]) (by simp [Value.type])⟩

/-- The place that is found is the one that is pointed to. -/
theorem place_eq_ok_iff :
    store.place target index = .ok place ↔ store.Points target index place := by
  refine ⟨fun h => ?_, Points.place_eq⟩
  rcases points_or_refuses store target index with ⟨found, hfound⟩ | ⟨cause, hcause⟩
  · cases hfound.place_eq.symm.trans h
    exact hfound
  · cases hcause.place_eq.symm.trans h

/-- A value may be put exactly where an index points. -/
theorem writable_iff : store.Writable target index ↔ ∃ place, store.Points target index place := by
  constructor
  · intro h
    cases target with
    | array ref =>
      obtain ⟨i, rfl, hlies⟩ := h
      exact ⟨_, .element hlies⟩
    | map ref =>
      obtain ⟨key, rfl⟩ := Value.hashable_iff.1 h
      exact ⟨_, .entry key⟩
    | _ => exact h.elim
  · rintro ⟨place, h⟩
    cases h with
    | element h => exact ⟨_, rfl, h⟩
    | entry key => exact key.hashable_toValue

theorem not_writable_iff :
    ¬ store.Writable target index ↔ ∃ cause, store.Refuses target index cause := by
  rw [writable_iff]
  constructor
  · exact fun h => (points_or_refuses store target index).resolve_left h
  · rintro ⟨cause, hcause⟩ ⟨place, hplace⟩
    cases hplace.place_eq.symm.trans hcause.place_eq

/-- The container of the place is what the target refers to. -/
theorem Points.objects_eq (h : store.Points target index place) :
    target.objects = [place.container] := by
  cases h <;> rfl

/-! ### Reading -/

theorem index_array (store : Store) (ref : Ref .array) (index : Value) :
    store.index (.array ref) index =
      (index.position (store.elements ref).length).map ((store.elements ref).getD · .null) := by
  rw [Store.index, Store.place]
  cases index.position (store.elements ref).length <;> rfl

theorem index_map (store : Store) (ref : Ref .map) (key : Key) :
    store.index (.map ref) key.toValue =
      ((store.table ref).get? key).elim (.error (.keyNotFound key)) .ok := by
  rw [Store.index, (Points.entry key).place_eq]
  dsimp only
  cases (store.table ref).get? key <;> rfl

theorem index_of_refuses (h : store.Refuses target index cause) :
    store.index target index = .error cause := by
  rw [Store.index, h.place_eq]

theorem index_map_of_not_hashable (h : ¬ index.Hashable) (ref : Ref .map) :
    store.index (.map ref) index = .error (.keyNotHashable index.type) :=
  index_of_refuses (.keyNotHashable h)

/-- **Reading succeeds exactly where there is a value.** -/
theorem index_eq_ok_iff : (∃ found, store.index target index = .ok found) ↔
    store.Readable target index := by
  cases target with
  | array ref =>
    rw [index_array]
    constructor
    · rintro ⟨found, h⟩
      obtain ⟨position, hposition, -⟩ := exists_of_map_eq_ok h
      cases index with
      | integer i =>
        refine ⟨i, rfl, Classical.byContradiction fun hnot => ?_⟩
        rw [position_of_not_liesIn hnot] at hposition
        cases hposition
      | _ => cases hposition
    · rintro ⟨i, rfl, h⟩
      exact ⟨_, by rw [position_of_liesIn h]; rfl⟩
  | map ref =>
    -- A key that is not hashable is refused, and equals no key of the map either.
    by_cases hindex : index.Hashable
    · obtain ⟨key, rfl⟩ := Value.hashable_iff.1 hindex
      have hstored : store.Readable (.map ref) key.toValue ↔ key ∈ (store.table ref).keys := by
        simp only [Readable, equal_toValue, decide_eq_true_iff, Key.toValue_inj, exists_eq_right]
      rw [hstored, index_map, ← Assoc.isSome_get?_iff]
      cases (store.table ref).get? key <;> simp
    · rw [index_map_of_not_hashable hindex]
      refine iff_of_false (by rintro ⟨_, ⟨⟩⟩) ?_
      rintro ⟨key, -, hequal⟩
      refine hindex ?_
      rw [Value.Hashable, ← type_eq_of_equal store hequal]
      exact key.hashable_toValue
  | _ => exact ⟨by rintro ⟨_, ⟨⟩⟩, fun h => h.elim⟩

/-- Reading looks at the container alone. -/
theorem index_of_same (h : ∀ o ∈ target.objects, before.Same after o) (index : Value) :
    after.index target index = before.index target index := by
  cases target with
  | array ref =>
    have helements : after.elements ref = before.elements ref :=
      congrArg (·.getD []) (h (.array ref) List.mem_cons_self)
    rw [index_array, index_array, helements]
  | map ref =>
    have htable : after.table ref = before.table ref :=
      congrArg (·.getD ∅) (h (.map ref) List.mem_cons_self)
    by_cases hindex : index.Hashable
    · obtain ⟨key, rfl⟩ := Value.hashable_iff.1 hindex
      rw [index_map, index_map, htable]
    · rw [index_map_of_not_hashable hindex, index_map_of_not_hashable hindex]
  | _ => rfl

/-! ### Reading what was put into a place -/

theorem elements_of_get? {es : List Value} (h : store.arrays.get? ref = some es) :
    store.elements ref = es := by
  rw [elements, h, Option.getD_some]

theorem table_of_get? {ref : Ref .map} {table : Table} (h : store.maps.get? ref = some table) :
    store.table ref = table := by
  rw [Store.table, h, Option.getD_some]

/-- An index that points somewhere is equal to itself alone. -/
theorem Points.equal_iff (h : store.Points target index place) {other : Value} :
    store.equal other index = true ↔ other = index := by
  obtain ⟨key, rfl⟩ : ∃ key : Key, index = key.toValue := by
    cases h with
    | @element ref i h => exact ⟨.integer i, rfl⟩
    | entry key => exact ⟨key, rfl⟩
  rw [equal_toValue, decide_eq_true_iff]

/-- Every index that is equal reads the value that was put into the place. -/
theorem index_of_assigned (hpoints : before.Points target index place)
    (h : before.Assigned place value after) {other : Value}
    (hequal : before.equal other index = true) : after.index target other = .ok value := by
  obtain rfl := hpoints.equal_iff.1 hequal
  have hinside := h.inside
  cases hpoints with
  | @element ref i hlies =>
    obtain ⟨es, es', hes, hes', -, hlength, hvalue, -⟩ := hinside
    have hlies' : after.LiesIn ref i := by
      rw [LiesIn, elements_of_get? hes', hlength, ← elements_of_get? hes]
      exact hlies
    rw [index_array, position_of_liesIn hlies', Except.map, elements_of_get? hes',
      List.getD_eq_getElem?_getD, hvalue, Option.getD_some]
  | @entry ref key =>
    obtain ⟨table, table', -, htable', hvalue, -⟩ := hinside
    rw [index_map, table_of_get? htable', hvalue]
    rfl

/-- Every other index reads what it read before. -/
theorem index_of_assigned_ne (hpoints : before.Points target index place)
    (h : before.Assigned place value after) {other : Value}
    (hequal : before.equal other index = false) :
    after.index target other = before.index target other := by
  have hne : other ≠ index := fun heq => by
    rw [hpoints.equal_iff.2 heq] at hequal
    cases hequal
  have hinside := h.inside
  cases hpoints with
  | @element ref i hlies =>
    obtain ⟨es, es', hes, hes', -, hlength, -, hothers⟩ := hinside
    rw [index_array, index_array, elements_of_get? hes, elements_of_get? hes', hlength]
    cases hposition : other.position es.length with
    | error cause => rfl
    | ok position =>
      rw [← elements_of_get? hes] at hposition
      -- two integers that lie in the array are at different positions
      obtain ⟨j, rfl, hj⟩ : before.Writable (.array ref) other := by
        refine writable_iff.2 ⟨.element ref position, place_eq_ok_iff.1 ?_⟩
        rw [Store.place, hposition]
        rfl
      rw [position_of_liesIn hj] at hposition
      cases hposition
      have hpositions : (Int64.toInt j).toNat ≠ (Int64.toInt i).toNat := by
        intro heq
        have hzero := hj.1
        have hzero' := hlies.1
        exact hne (congrArg Value.integer (Int64.toInt_inj.1 (by omega)))
      simp only [Except.map]
      rw [List.getD_eq_getElem?_getD, hothers _ hpositions, List.getD_eq_getElem?_getD]
  | @entry ref key =>
    obtain ⟨table, table', htable, htable', -, hothers, -⟩ := hinside
    by_cases hother : other.Hashable
    · obtain ⟨k, rfl⟩ := Value.hashable_iff.1 hother
      have hk : k ≠ key := fun heq => hne (heq ▸ rfl)
      rw [index_map, index_map, table_of_get? htable, table_of_get? htable', hothers k hk]
    · rw [index_map_of_not_hashable hother, index_map_of_not_hashable hother]

/-- A value is put at an index exactly. One element of the target changes, or one key; nothing
else does, and no binding. Indices that are equal read the value, all others what they read
before. -/
structure AssignedAt (before : Store) (target index value : Value) (after : Store) : Prop where
  assigned : ∃ place, before.Points target index place ∧ before.Assigned place value after
  binding?_eq : ∀ r name, after.binding? r name = before.binding? r name
  reads : ∀ other, before.equal other index = true → after.index target other = .ok value
  reads_other : ∀ other, before.equal other index = false →
    after.index target other = before.index target other

theorem assignedAt_write (hpoints : before.Points target index place)
    (hhas : before.Has place.container) (value : Value) :
    before.AssignedAt target index value (before.write place value) := by
  have hassigned := assigned_write hpoints.place_eq hhas value
  refine ⟨⟨place, hpoints, hassigned⟩, fun r name => ?_,
    fun _ => index_of_assigned hpoints hassigned, fun _ => index_of_assigned_ne hpoints hassigned⟩
  have hscope : before.Same (before.write place value) (.scope r) :=
    hassigned.others _ (by cases place <;> simp [Place.container])
  exact congrArg (·.bind (·.bindings.get? name)) hscope

end Store

end Script
