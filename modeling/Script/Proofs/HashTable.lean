import Mathlib.Data.Finset.Card
import Script.HashTable
import Script.Proofs.Store.Objects

/-!
# A table in buckets is a finite map

Whatever the hashes are, and however many keys collide, a table in buckets reads like a table that
remembers the order of its keys. Two facts carry this. Values that may be keys are equal only if
they are the same, in any store, so a bucket is searched like an association. And each key stands in
its own bucket once, so keys in different buckets differ, and the pairs can be counted.

* `HashTable.Represents`: a table in buckets has the same contents as a table in order, and
  `HashTable.Represents.insert`: storing keeps this;
* `HashTable.lastStored`: the value that insertions have left under a key;
* `HashTable.RefinesMap`: what can be read from the table that insertions lead to, and
  `HashTable.refinesMap`: all of this holds for any hashes.
-/

namespace Script

/-! ### Keys and their equality -/

namespace Store

variable (store : Store)

/-- A value is equal to one that is a key only if it is the same. -/
theorem equal_toValue (a : Value) (k : Key) : store.equal a k.toValue = decide (a = k.toValue) := by
  unfold equal
  generalize store.equalityDepth = n
  cases k <;> cases n <;> cases a <;> rfl

theorem type_eq_of_equal {a b : Value} (h : store.equal a b = true) : a.type = b.type := by
  unfold equal at h
  generalize store.equalityDepth = n at h
  unfold equalWithin at h
  split at h
  · rfl
  · rfl
  · rfl
  · rfl
  · rw [eq_of_beq h]

end Store

/-- The bucket of a key. -/
def Key.address (hash : Key → UInt64) (k : Key) : HashKey :=
  ⟨k.toValue.type, hash k⟩

theorem Key.key?_toValue (k : Key) : k.toValue.key? = some k :=
  Value.key?_eq_some_iff.2 rfl

theorem Key.toValue_inj {k other : Key} : k.toValue = other.toValue ↔ k = other := by
  rw [← Value.key?_eq_some_iff, Key.key?_toValue, Option.some_inj]

theorem Value.exists_key {v : Value} (h : v.key? ≠ none) : ∃ k : Key, v = k.toValue := by
  obtain ⟨k, hk⟩ := Option.ne_none_iff_exists'.1 h
  exact ⟨k, Value.key?_eq_some_iff.1 hk⟩

variable {hash : Key → UInt64}

@[simp]
theorem Key.hashKey_toValue (k : Key) : k.toValue.hashKey hash = .ok (k.address hash) := by
  rw [Value.hashKey, Key.key?_toValue]
  rfl

theorem Value.hashKey_of_none {v : Value} (h : v.key? = none) :
    v.hashKey hash = .error ⟨v.type⟩ := by
  rw [Value.hashKey, h]

theorem Value.exists_of_hashKey {v : Value} {address : HashKey} (h : v.hashKey hash = .ok address) :
    ∃ k : Key, v = k.toValue ∧ k.address hash = address := by
  have hne : v.key? ≠ none := by
    intro hnone
    rw [Value.hashKey_of_none hnone] at h
    cases h
  obtain ⟨k, rfl⟩ := Value.exists_key hne
  rw [Key.hashKey_toValue] at h
  exact ⟨k, rfl, Except.ok.inj h⟩

namespace Table

variable {table : Table} {i : Insertion}

theorem afterInsertion_of_none (h : i.key.key? = none) : table.afterInsertion i = table := by
  rw [afterInsertion, insert, Value.key, h]

theorem afterInsertion_of_some {k : Key} (h : i.key.key? = some k) :
    table.afterInsertion i = Assoc.insert table k i.value := by
  rw [afterInsertion, insert, Value.key, h]

end Table

namespace HashTable

/-! ### Buckets -/

section Buckets

variable (store : Store) (k : Key)

/-- A bucket is searched like an association. -/
theorem search_eq (bucket : List (Value × Value)) :
    search store k.toValue bucket = Assoc.find? k.toValue bucket := by
  unfold search
  induction bucket with
  | nil => rfl
  | cons pair rest ih =>
    obtain ⟨existing, old⟩ := pair
    rw [List.find?_cons, Assoc.find?, store.equal_toValue]
    by_cases h : existing = k.toValue
    · simp [h]
    · simpa [h] using ih

theorem overwrite_eq (value : Value) {bucket : List (Value × Value)}
    (h : (Assoc.find? k.toValue bucket).isSome) :
    overwrite store k.toValue value bucket = Assoc.put k.toValue value bucket := by
  induction bucket with
  | nil => cases h
  | cons pair rest ih =>
    obtain ⟨existing, old⟩ := pair
    rw [overwrite, Assoc.put, store.equal_toValue]
    by_cases hexisting : existing = k.toValue
    · simp [hexisting]
    · rw [Assoc.find?, if_neg hexisting] at h
      simpa [hexisting] using ih h

theorem get_toValue (t : HashTable) :
    t.get hash store k.toValue = .ok (Assoc.find? k.toValue (t.bucket (k.address hash))) := by
  rw [get, Key.hashKey_toValue]
  exact congrArg Except.ok (search_eq store k _)

/-- Storing under a key stores in its bucket as in an association. -/
theorem insert_toValue (t : HashTable) (value : Value) :
    t.insert hash store k.toValue value =
      (.ok (Assoc.find? k.toValue (t.bucket (k.address hash))),
        ⟨t.buckets.insert (k.address hash)
            (Assoc.put k.toValue value (t.bucket (k.address hash))),
          if (Assoc.find? k.toValue (t.bucket (k.address hash))).isSome then t.len
          else t.len + 1⟩) := by
  rw [insert, Key.hashKey_toValue]
  dsimp only
  rw [search_eq]
  cases hfind : Assoc.find? k.toValue (t.bucket (k.address hash)) with
  | some old =>
    rw [← overwrite_eq store k value (Option.isSome_iff_exists.2 ⟨old, hfind⟩)]
    rfl
  | none =>
    rw [Assoc.put_eq_append value hfind]
    rfl

theorem bucket_insert (t : HashTable) (value : Value) (address : HashKey) :
    (t.insert hash store k.toValue value).2.bucket address =
      if k.address hash = address then Assoc.put k.toValue value (t.bucket address)
      else t.bucket address := by
  rw [insert_toValue]
  show ((t.buckets.insert _ _).get? address).getD [] = _
  rw [Assoc.get?_insert]
  by_cases h : k.address hash = address
  · rw [if_pos h, if_pos h, h]
    rfl
  · rw [if_neg h, if_neg h]
    rfl

/-- A refused key leaves a table as it was. -/
theorem insert_of_none {key : Value} (h : key.key? = none) (t : HashTable) (value : Value) :
    t.insert hash store key value = (.error ⟨key.type⟩, t) := by
  rw [insert, Value.hashKey_of_none h]

theorem get_of_none {key : Value} (h : key.key? = none) (t : HashTable) :
    t.get hash store key = .error ⟨key.type⟩ := by
  rw [get, Value.hashKey_of_none h]

end Buckets

theorem bucket_eq_of_mem {t : HashTable} {order : List (HashKey × List (Value × Value))}
    (horder : order.Perm t.buckets.pairs) {b : HashKey × List (Value × Value)} (hb : b ∈ order) :
    t.bucket b.1 = b.2 := by
  have hget := (Assoc.find?_eq_some_iff t.buckets.nodup_keys).2 (horder.mem_iff.1 hb)
  rw [bucket, Assoc.get?, hget]
  rfl

/-! ### What a table in buckets represents -/

/-- **A table in buckets represents a table in order.** -/
structure Represents (hash : Key → UInt64) (t : HashTable) (table : Table) : Prop where
  /-- Each key is in its own bucket. -/
  placed : ∀ address, ∀ key ∈ (t.bucket address).map Prod.fst, key.hashKey hash = .ok address
  distinct : ∀ address, ((t.bucket address).map Prod.fst).Nodup
  found : ∀ k : Key, Assoc.find? k.toValue (t.bucket (k.address hash)) = table.get? k
  len_eq : t.len = table.size

/-- A table reads like one in order: storing and reading give the same, the keys are as many, and
the same pairs are listed, but in whatever order the buckets come. -/
structure ReadsLike (hash : Key → UInt64) (t : HashTable) (table : Table) : Prop where
  insert_eq : ∀ store key value,
    (t.insert hash store key value).1 = (table.insert key value).map Prod.fst
  get_eq : ∀ store key, t.get hash store key = table.get key
  len_eq : t.len = table.size
  lists_perm : ∀ pairs, t.Lists pairs →
    pairs.Perm (table.pairs.map fun pair => (pair.1.toValue, pair.2))

theorem represents_empty : Represents hash empty ∅ where
  placed _ _ hkey := absurd hkey List.not_mem_nil
  distinct _ := List.nodup_nil
  found _ := rfl
  len_eq := rfl

namespace Represents

variable {t : HashTable} {table : Table}

theorem insert (h : t.Represents hash table) (store : Store) (k : Key) (value : Value) :
    (t.insert hash store k.toValue value).2.Represents hash (Assoc.insert table k value) where
  placed address key hkey := by
    rw [bucket_insert] at hkey
    by_cases haddress : k.address hash = address
    · rw [if_pos haddress] at hkey
      -- a key of the changed bucket is the new one or was there before
      rcases Assoc.mem_keys_put hkey with rfl | hold
      · rw [Key.hashKey_toValue, haddress]
      · exact h.placed address key hold
    · rw [if_neg haddress] at hkey
      exact h.placed address key hkey
  distinct address := by
    rw [bucket_insert]
    split
    · exact Assoc.nodup_put _ _ (h.distinct address)
    · exact h.distinct address
  found other := by
    rw [bucket_insert, Assoc.get?_insert, ← h.found other]
    by_cases hother : k = other
    · subst hother
      rw [if_pos rfl, if_pos rfl, Assoc.find?_put, if_pos rfl]
    · -- another key may share the bucket
      have hne : k.toValue ≠ other.toValue := fun heq => hother (Key.toValue_inj.1 heq)
      rw [if_neg hother]
      split
      · rw [Assoc.find?_put, if_neg hne]
      · rfl
  len_eq := by
    rw [insert_toValue, Assoc.size_insert, h.found k, h.len_eq]

/-- A pair is listed if it is in the table in order. -/
theorem mem_iff (h : t.Represents hash table) {pairs : List (Value × Value)}
    (hpairs : t.Lists pairs) {key value : Value} :
    (key, value) ∈ pairs ↔ ∃ k : Key, key = k.toValue ∧ table.get? k = some value := by
  obtain ⟨order, horder, rfl⟩ := hpairs
  constructor
  · intro hmem
    obtain ⟨⟨address, bucket⟩, horder', hpair⟩ := List.mem_flatMap.1 hmem
    rw [← bucket_eq_of_mem horder horder'] at hpair
    obtain ⟨k, rfl, rfl⟩ :=
      Value.exists_of_hashKey (h.placed address key (List.mem_map_of_mem hpair))
    exact ⟨k, rfl, (h.found k).symm.trans ((Assoc.find?_eq_some_iff (h.distinct _)).2 hpair)⟩
  · rintro ⟨k, rfl, hget⟩
    have hpair := Assoc.mem_of_find? ((h.found k).trans hget)
    cases hfind : t.buckets.get? (k.address hash) with
    | none =>
      rw [HashTable.bucket, hfind] at hpair
      cases hpair
    | some bucket =>
      rw [HashTable.bucket, hfind] at hpair
      have hmem := horder.mem_iff.2 (Assoc.mem_of_find? hfind)
      exact List.mem_flatMap.2 ⟨_, hmem, hpair⟩

theorem nodup_keys (h : t.Represents hash table) {pairs : List (Value × Value)}
    (hpairs : t.Lists pairs) : (pairs.map Prod.fst).Nodup := by
  obtain ⟨order, horder, rfl⟩ := hpairs
  have hplaced : ∀ b ∈ order, ∀ key ∈ b.2.map Prod.fst, key.hashKey hash = .ok b.1 := by
    intro b hb key hkey
    rw [← bucket_eq_of_mem horder hb] at hkey
    exact h.placed b.1 key hkey
  rw [List.map_flatMap, List.nodup_flatMap]
  constructor
  · intro b hb
    rw [← bucket_eq_of_mem horder hb]
    exact h.distinct b.1
  · -- a key in two buckets would have two addresses
    have haddresses : order.Pairwise fun b b' => b.1 ≠ b'.1 := by
      have hnodup : (order.map Prod.fst).Nodup :=
        (horder.map Prod.fst).nodup_iff.2 t.buckets.nodup_keys
      exact List.pairwise_map.1 hnodup
    refine List.Pairwise.imp_of_mem (fun {b b'} hb hb' hne => ?_) haddresses
    intro key hkey hkey'
    have heq := (hplaced b hb key hkey).symm.trans (hplaced b' hb' key hkey')
    exact hne (Except.ok.inj heq)

/-- The same pairs are in both tables, in whatever order the buckets come. -/
theorem perm_pairs (h : t.Represents hash table) {pairs : List (Value × Value)}
    (hpairs : t.Lists pairs) :
    pairs.Perm (table.pairs.map fun pair => (pair.1.toValue, pair.2)) := by
  have hnodup : pairs.Nodup := List.Nodup.of_map Prod.fst (h.nodup_keys hpairs)
  have hnodup' : (table.pairs.map fun pair => (pair.1.toValue, pair.2)).Nodup := by
    refine List.Nodup.map (fun a b hab => ?_) (List.Nodup.of_map Prod.fst table.nodup_keys)
    obtain ⟨hkey, hvalue⟩ := Prod.mk.inj hab
    exact Prod.ext (Key.toValue_inj.1 hkey) hvalue
  refine (List.perm_ext_iff_of_nodup hnodup hnodup').2 ?_
  rintro ⟨key, value⟩
  rw [h.mem_iff hpairs, List.mem_map]
  constructor
  · rintro ⟨k, rfl, hget⟩
    exact ⟨(k, value), Assoc.mem_of_find? hget, rfl⟩
  · rintro ⟨⟨k, value'⟩, hmem, heq⟩
    obtain ⟨rfl, rfl⟩ := Prod.mk.inj heq
    exact ⟨k, rfl, (Assoc.find?_eq_some_iff table.nodup_keys).2 hmem⟩

theorem readsLike (h : t.Represents hash table) : ReadsLike hash t table where
  insert_eq store key value := by
    by_cases hkey : key.key? = none
    · rw [insert_of_none store hkey, Table.insert, Value.key, hkey]
      rfl
    · obtain ⟨k, rfl⟩ := Value.exists_key hkey
      rw [insert_toValue, h.found, Table.insert, Value.key, Key.key?_toValue]
      rfl
  get_eq store key := by
    by_cases hkey : key.key? = none
    · rw [get_of_none store hkey, Table.get, Value.key, hkey]
    · obtain ⟨k, rfl⟩ := Value.exists_key hkey
      rw [get_toValue, h.found, Table.get, Value.key, Key.key?_toValue]
  len_eq := h.len_eq
  lists_perm _ := h.perm_pairs

/-! #### After storing -/

theorem get_insert_of_equal (h : t.Represents hash table) (store store' : Store) {key other : Value}
    (value : Value) (hkey : key.key? ≠ none) (hequal : store'.equal other key = true) :
    (t.insert hash store key value).2.get hash store' other = .ok (some value) := by
  obtain ⟨k, rfl⟩ := Value.exists_key hkey
  rw [store'.equal_toValue] at hequal
  obtain rfl := of_decide_eq_true hequal
  rw [get_toValue, (h.insert store k value).found, Assoc.get?_insert, if_pos rfl]

theorem get_insert_of_not_equal (h : t.Represents hash table) (store store' : Store)
    {key other : Value} (value : Value) (hequal : store'.equal other key = false) :
    (t.insert hash store key value).2.get hash store' other = t.get hash store' other := by
  by_cases hkey : key.key? = none
  · rw [insert_of_none store hkey]
  by_cases hother : other.key? = none
  · rw [get_of_none store' hother, get_of_none store' hother]
  obtain ⟨k, rfl⟩ := Value.exists_key hkey
  obtain ⟨k', rfl⟩ := Value.exists_key hother
  rw [store'.equal_toValue] at hequal
  have hne : k ≠ k' := by
    rintro rfl
    exact of_decide_eq_false hequal rfl
  rw [get_toValue, get_toValue, (h.insert store k value).found, Assoc.get?_insert, if_neg hne,
    h.found]

/-- Overwriting changes no key in any bucket. -/
theorem keys_insert (h : t.Represents hash table) (store : Store) (k : Key) (value : Value)
    (hsome : (table.get? k).isSome) (address : HashKey) :
    ((t.insert hash store k.toValue value).2.bucket address).map Prod.fst =
      (t.bucket address).map Prod.fst := by
  rw [bucket_insert]
  by_cases haddress : k.address hash = address
  · have hmem : k.toValue ∈ (t.bucket address).map Prod.fst := by
      rw [← Assoc.isSome_find?_iff, ← haddress, h.found]
      exact hsome
    rw [if_pos haddress, Assoc.map_fst_put, if_pos hmem]
  · rw [if_neg haddress]

/-! #### The pairs that are listed -/

theorem pairwise_not_equal (h : t.Represents hash table) {pairs : List (Value × Value)}
    (hpairs : t.Lists pairs) :
    pairs.Pairwise fun a b => ∀ store : Store, store.equal a.1 b.1 = false := by
  have hnodup := List.pairwise_map.1 (h.nodup_keys hpairs)
  refine List.Pairwise.imp_of_mem (fun {a b} _ hb hne store => ?_) hnodup
  obtain ⟨k, hk, -⟩ := (h.mem_iff hpairs).1 hb
  rw [hk] at hne ⊢
  rw [store.equal_toValue]
  exact decide_eq_false hne

theorem mem_iff_get (h : t.Represents hash table) {pairs : List (Value × Value)}
    (hpairs : t.Lists pairs) (store : Store) (key value : Value) :
    (key, value) ∈ pairs ↔ t.get hash store key = .ok (some value) := by
  rw [h.mem_iff hpairs]
  constructor
  · rintro ⟨k, rfl, hk⟩
    rw [get_toValue, h.found, hk]
  · intro hget
    have hkey : key.key? ≠ none := by
      intro hnone
      rw [get_of_none store hnone] at hget
      cases hget
    obtain ⟨k, rfl⟩ := Value.exists_key hkey
    rw [get_toValue, h.found] at hget
    exact ⟨k, rfl, Except.ok.inj hget⟩

end Represents

/-- Every table in order is represented: its keys are inserted one after another. -/
theorem exists_represents (hash : Key → UInt64) (table : Table) :
    ∃ t : HashTable, t.Represents hash table := by
  obtain ⟨pairs, hnodup⟩ := table
  induction pairs using List.reverseRecOn with
  | nil => exact ⟨empty, represents_empty⟩
  | append_singleton pairs pair ih =>
    have hkeys := hnodup
    rw [List.map_append, List.nodup_append] at hkeys
    obtain ⟨hpairs, -, hnew⟩ := hkeys
    obtain ⟨t, ht⟩ := ih hpairs
    have hfind : Assoc.find? pair.1 pairs = none := by
      rw [← Option.not_isSome_iff_eq_none, Assoc.isSome_find?_iff]
      exact fun hmem => hnew _ hmem _ List.mem_cons_self rfl
    have hinsert : Assoc.insert ⟨pairs, hpairs⟩ pair.1 pair.2 = ⟨pairs ++ [pair], hnodup⟩ := by
      rw [Assoc.insert]
      congr 1
      exact Assoc.put_eq_append pair.2 hfind
    exact ⟨_, hinsert ▸ ht.insert .empty pair.1 pair.2⟩

/-- Insertions lead to tables of which one represents the other. -/
theorem represents_ofInsertions (hash : Key → UInt64) (log : List Insertion) :
    (ofInsertions hash log).Represents hash (Table.ofInsertions log) := by
  unfold ofInsertions Table.ofInsertions
  have hstart : Represents hash empty ∅ := represents_empty
  generalize empty = t at hstart ⊢
  generalize (∅ : Table) = table at hstart ⊢
  induction log generalizing t table with
  | nil => exact hstart
  | cons i log ih =>
    rw [List.foldl_cons, List.foldl_cons]
    refine ih _ _ ?_
    cases hkey : i.key.key? with
    | none =>
      rw [insert_of_none i.store hkey, Table.afterInsertion_of_none hkey]
      exact hstart
    | some k =>
      rw [Table.afterInsertion_of_some hkey, Value.key?_eq_some_iff.1 hkey]
      exact hstart.insert i.store k i.value

end HashTable

/-! ### What insertions leave -/

/-- The value last stored under a key that is equal to this one. -/
def HashTable.lastStored (store : Store) (log : List Insertion) (key : Value) : Option Value :=
  (log.reverse.find? fun i => store.equal i.key key).map Insertion.value

namespace Table

theorem ofInsertions_append (log : List Insertion) (i : Insertion) :
    ofInsertions (log ++ [i]) = (ofInsertions log).afterInsertion i := by
  rw [ofInsertions, List.foldl_append]
  rfl

theorem get?_ofInsertions (store : Store) (log : List Insertion) (k : Key) :
    (ofInsertions log).get? k = HashTable.lastStored store log k.toValue := by
  induction log using List.reverseRecOn with
  | nil => rfl
  | append_singleton log i ih =>
    -- the last insertion counts if it is under this key
    have hlast : HashTable.lastStored store (log ++ [i]) k.toValue =
        if i.key = k.toValue then some i.value else HashTable.lastStored store log k.toValue := by
      unfold HashTable.lastStored
      rw [List.reverse_append, List.reverse_singleton, List.singleton_append, List.find?_cons,
        store.equal_toValue]
      by_cases h : i.key = k.toValue <;> simp [h]
    rw [hlast, ofInsertions_append]
    cases hfound : i.key.key? with
    | none =>
      -- a refused key is none that the table can hold
      have hne : i.key ≠ k.toValue := by
        intro heq
        rw [heq, Key.key?_toValue] at hfound
        cases hfound
      rw [if_neg hne, afterInsertion_of_none hfound]
      exact ih
    | some k' =>
      rw [afterInsertion_of_some hfound, Assoc.get?_insert, ih, Value.key?_eq_some_iff.1 hfound]
      by_cases h : k' = k
      · rw [if_pos h, if_pos (congrArg Key.toValue h)]
      · rw [if_neg h, if_neg fun heq => h (Key.toValue_inj.1 heq)]

theorem mem_keys_ofInsertions (log : List Insertion) (k : Key) :
    k ∈ (ofInsertions log).keys ↔ k ∈ log.filterMap fun i => i.key.key? := by
  induction log using List.reverseRecOn with
  | nil => rfl
  | append_singleton log i ih =>
    rw [ofInsertions_append, List.filterMap_append, List.mem_append, ← ih]
    cases hkey : i.key.key? with
    | none =>
      rw [afterInsertion_of_none hkey]
      simp [hkey]
    | some k' =>
      rw [afterInsertion_of_some hkey, Assoc.keys_insert]
      by_cases h : k' ∈ (ofInsertions log).keys
      · rw [if_pos h]
        simp only [List.filterMap_cons, hkey, List.filterMap_nil, List.mem_singleton]
        exact ⟨.inl, fun hor => hor.elim id fun heq => heq ▸ h⟩
      · rw [if_neg h, List.mem_append]
        simp [hkey]

/-- The keys are counted once each, however often they are stored under. -/
theorem size_ofInsertions (log : List Insertion) :
    (ofInsertions log).size = (log.filterMap fun i => i.key.key?).toFinset.card := by
  have hnodup : (ofInsertions log).keys.Nodup := (ofInsertions log).nodup_keys
  have hfinset :
      (ofInsertions log).keys.toFinset = (log.filterMap fun i => i.key.key?).toFinset := by
    ext k
    rw [List.mem_toFinset, List.mem_toFinset, mem_keys_ofInsertions]
  rw [← hfinset, List.toFinset_card_of_nodup hnodup]
  exact (List.length_map Prod.fst).symm

end Table

namespace HashTable

/-! ### The table that insertions lead to -/

/-- **A table in buckets is the finite map** that insertions lead to. Keys are compared in stores of
any kind, be they those of the insertions or not. -/
structure RefinesMap (hash : Key → UInt64) (log : List Insertion) (t : HashTable) : Prop where
  refuses : ∀ store key value, key.key? = none →
    t.insert hash store key value = (.error ⟨key.type⟩, t) ∧
      t.get hash store key = .error ⟨key.type⟩
  /-- Storing gives the value that was last stored, as reading does. -/
  gives_last : ∀ store key value, key.key? ≠ none →
    (t.insert hash store key value).1 = .ok (lastStored store log key) ∧
      t.get hash store key = .ok (lastStored store log key)
  reads_equal : ∀ store store' key value other, key.key? ≠ none → store'.equal other key = true →
    (t.insert hash store key value).2.get hash store' other = .ok (some value)
  reads_other : ∀ store store' key value other, store'.equal other key = false →
    (t.insert hash store key value).2.get hash store' other = t.get hash store' other
  type_eq : ∀ (store : Store) (a b : Value), a.type ≠ b.type → store.equal a b = false
  /-- Where something was stored, the key that was there first remains, and so do all others. -/
  keeps_keys : ∀ store key value address, lastStored store log key ≠ none →
    ((t.insert hash store key value).2.bucket address).map Prod.fst =
      (t.bucket address).map Prod.fst
  /-- No two keys in a list of the pairs are equal. -/
  lists_distinct : ∀ pairs, t.Lists pairs →
    pairs.Pairwise fun a b => ∀ store : Store, store.equal a.1 b.1 = false
  lists_iff : ∀ pairs, t.Lists pairs → ∀ store key value,
    (key, value) ∈ pairs ↔ t.get hash store key = .ok (some value)
  len_eq : t.len = (log.filterMap fun i => i.key.key?).toFinset.card
  isEmpty_iff : t.isEmpty = true ↔ t.len = 0

theorem refinesMap_of_represents {log : List Insertion} {t : HashTable}
    (h : t.Represents hash (Table.ofInsertions log)) : RefinesMap hash log t where
  refuses store key value hkey := ⟨insert_of_none store hkey t value, get_of_none store hkey t⟩
  gives_last store key value hkey := by
    obtain ⟨k, rfl⟩ := Value.exists_key hkey
    rw [insert_toValue, get_toValue, h.found, Table.get?_ofInsertions store]
    exact ⟨rfl, rfl⟩
  reads_equal store store' key value other hkey hequal :=
    h.get_insert_of_equal store store' value hkey hequal
  reads_other store store' key value other hequal :=
    h.get_insert_of_not_equal store store' value hequal
  type_eq store a b hne := Bool.eq_false_iff.2 fun hequal => hne (store.type_eq_of_equal hequal)
  keeps_keys store key value address hlast := by
    by_cases hkey : key.key? = none
    · rw [insert_of_none store hkey]
    · obtain ⟨k, rfl⟩ := Value.exists_key hkey
      rw [← Table.get?_ofInsertions] at hlast
      exact h.keys_insert store k value (Option.isSome_iff_ne_none.2 hlast) address
  lists_distinct _ hpairs := h.pairwise_not_equal hpairs
  lists_iff _ hpairs store key value := h.mem_iff_get hpairs store key value
  len_eq := h.len_eq.trans (Table.size_ofInsertions log)
  isEmpty_iff := by simp [isEmpty]

/-- **A table in buckets is a finite map**, and the same one as a table in order, whatever hashes
the keys have. -/
theorem refinesMap (hash : Key → UInt64) (log : List Insertion) :
    RefinesMap hash log (ofInsertions hash log) ∧
      ReadsLike hash (ofInsertions hash log) (Table.ofInsertions log) := by
  have h := represents_ofInsertions hash log
  exact ⟨refinesMap_of_represents h, h.readsLike⟩

-- All hashes are the same, and the truth values still have a bucket for themselves.
example : (ofInsertions (fun _ => 0) [⟨.empty, .boolean true, .null⟩,
    ⟨.empty, .string "a", .null⟩, ⟨.empty, .boolean false, .null⟩,
    ⟨.empty, .boolean true, .string "b"⟩]).bucket ⟨.boolean, 0⟩ =
      [(.boolean true, .string "b"), (.boolean false, .null)] := by
  rfl

end HashTable

end Script
