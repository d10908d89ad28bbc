/-!
# Associations in order of first insertion

A finite map that remembers the order in which its keys first came in. Storing under a key that is
there already replaces the value in place and keeps the old key and its position.

* `Assoc.get?`, `Assoc.insert`: reading and storing.
* `Assoc.get?_insert`: what reading gives after storing.
* `Assoc.keys_insert`: a new key goes to the end, an old one stays where it is.
* `Assoc.find?_eq_some_iff`: the pairs and what is read from them.
-/

namespace Script

/-- A finite map as its pairs in order of first insertion. No key occurs twice. -/
structure Assoc (κ α : Type) where
  pairs : List (κ × α)
  nodup_keys : (pairs.map Prod.fst).Nodup

namespace Assoc

variable {κ α : Type}

/-- The map without pairs. -/
def empty : Assoc κ α :=
  ⟨[], List.nodup_nil⟩

instance : EmptyCollection (Assoc κ α) := ⟨empty⟩

instance : Inhabited (Assoc κ α) := ⟨∅⟩

/-- The number of keys. -/
def size (m : Assoc κ α) : Nat :=
  m.pairs.length

/-- The keys, in order of first insertion. -/
def keys (m : Assoc κ α) : List κ :=
  m.pairs.map Prod.fst

variable [DecidableEq κ]

/-- The value under a key in a list of pairs, the first one if there are more. -/
def find? (key : κ) : List (κ × α) → Option α
  | [] => none
  | (k, a) :: rest => if k = key then some a else find? key rest

/-- The value under a key. -/
def get? (m : Assoc κ α) (key : κ) : Option α :=
  find? key m.pairs

/-- The pairs with a value replaced in place, or with a new pair at the end. -/
def put (key : κ) (value : α) : List (κ × α) → List (κ × α)
  | [] => [(key, value)]
  | (k, a) :: rest => if k = key then (k, value) :: rest else (k, a) :: put key value rest

theorem map_fst_put (key : κ) (value : α) (l : List (κ × α)) :
    (put key value l).map Prod.fst =
      if key ∈ l.map Prod.fst then l.map Prod.fst else l.map Prod.fst ++ [key] := by
  induction l with
  | nil => rfl
  | cons pair rest ih =>
    obtain ⟨k, a⟩ := pair
    by_cases h : k = key
    · simp [put, h]
    · have h' : ¬ key = k := fun e => h e.symm
      by_cases hm : key ∈ rest.map Prod.fst <;> simp [put, h, h', ih, hm]

theorem nodup_put (key : κ) (value : α) {l : List (κ × α)} (h : (l.map Prod.fst).Nodup) :
    ((put key value l).map Prod.fst).Nodup := by
  rw [map_fst_put]
  split
  · exact h
  · next hm =>
    rw [List.nodup_append]
    refine ⟨h, by simp, ?_⟩
    intro a ha b hb e
    rw [List.mem_singleton] at hb
    exact hm (hb ▸ e ▸ ha)

/-- Stores a value under a key. -/
def insert (m : Assoc κ α) (key : κ) (value : α) : Assoc κ α :=
  ⟨put key value m.pairs, nodup_put key value m.nodup_keys⟩

/-! ### Laws -/

theorem find?_put (key other : κ) (value : α) (l : List (κ × α)) :
    find? other (put key value l) = if key = other then some value else find? other l := by
  induction l with
  | nil => simp [put, find?]
  | cons pair rest ih =>
    obtain ⟨k, a⟩ := pair
    by_cases h : k = key
    · subst h
      by_cases ho : k = other <;> simp [put, find?, ho]
    · by_cases ho : k = other
      · subst ho
        have h' : ¬ key = k := fun e => h e.symm
        simp [put, find?, h, h']
      · simp [put, find?, h, ho, ih]

/-- **After storing, the key has the new value** and every other key has what it had. -/
theorem get?_insert (m : Assoc κ α) (key other : κ) (value : α) :
    (m.insert key value).get? other = if key = other then some value else m.get? other :=
  find?_put key other value m.pairs

/-- **A new key goes to the end; the keys stay as they are otherwise.** -/
theorem keys_insert (m : Assoc κ α) (key : κ) (value : α) :
    (m.insert key value).keys = if key ∈ m.keys then m.keys else m.keys ++ [key] :=
  map_fst_put key value m.pairs

theorem isSome_find?_iff (key : κ) (l : List (κ × α)) :
    (find? key l).isSome ↔ key ∈ l.map Prod.fst := by
  induction l with
  | nil => simp [find?]
  | cons pair rest ih =>
    obtain ⟨k, a⟩ := pair
    by_cases h : k = key
    · simp [find?, h]
    · have h' : ¬ key = k := fun e => h e.symm
      simp only [find?, h, h', if_false, List.map_cons, List.mem_cons, false_or, ih]

/-- A key has a value exactly if it is among the keys. -/
theorem isSome_get?_iff (m : Assoc κ α) (key : κ) : (m.get? key).isSome ↔ key ∈ m.keys :=
  isSome_find?_iff key m.pairs

theorem mem_of_find? {key : κ} {value : α} {l : List (κ × α)} (h : find? key l = some value) :
    (key, value) ∈ l := by
  induction l with
  | nil => cases h
  | cons pair rest ih =>
    obtain ⟨k, a⟩ := pair
    rw [find?] at h
    split at h
    · next heq =>
      obtain rfl := heq
      obtain rfl := Option.some.inj h
      exact List.mem_cons_self
    · exact List.mem_cons_of_mem _ (ih h)

/-- Where no key occurs twice, the value under a key is the one that stands beside it. -/
theorem find?_eq_some_iff {key : κ} {value : α} {l : List (κ × α)}
    (h : (l.map Prod.fst).Nodup) : find? key l = some value ↔ (key, value) ∈ l := by
  refine ⟨mem_of_find?, fun hmem => ?_⟩
  induction l with
  | nil => cases hmem
  | cons pair rest ih =>
    obtain ⟨k, a⟩ := pair
    rw [List.map_cons, List.nodup_cons] at h
    rw [find?]
    rcases List.mem_cons.1 hmem with heq | hmem
    · cases heq
      rw [if_pos rfl]
    · have hne : k ≠ key := by
        rintro rfl
        exact h.1 (List.mem_map.2 ⟨_, hmem, rfl⟩)
      rw [if_neg hne]
      exact ih h.2 hmem

theorem mem_keys_put {key other : κ} {value : α} {l : List (κ × α)}
    (h : other ∈ (put key value l).map Prod.fst) : other = key ∨ other ∈ l.map Prod.fst := by
  rw [map_fst_put] at h
  split at h
  · exact .inr h
  · rcases List.mem_append.1 h with h | h
    · exact .inr h
    · exact .inl (List.mem_singleton.1 h)

theorem put_eq_append {key : κ} (value : α) {l : List (κ × α)} (h : find? key l = none) :
    put key value l = l ++ [(key, value)] := by
  induction l with
  | nil => rfl
  | cons pair rest ih =>
    obtain ⟨k, a⟩ := pair
    rw [find?] at h
    by_cases hk : k = key
    · rw [if_pos hk] at h
      cases h
    · rw [if_neg hk] at h
      rw [put, if_neg hk, ih h, List.cons_append]

/-- A new key comes last, and the pairs before it stay. -/
theorem pairs_insert_of_not_mem {m : Assoc κ α} {key : κ} (value : α) (h : key ∉ m.keys) :
    (m.insert key value).pairs = m.pairs ++ [(key, value)] := by
  refine put_eq_append value (Option.not_isSome_iff_eq_none.1 ?_)
  rwa [isSome_find?_iff]

/-- The number of keys grows if the key is new. -/
theorem size_insert (m : Assoc κ α) (key : κ) (value : α) :
    (m.insert key value).size = if (m.get? key).isSome then m.size else m.size + 1 := by
  have hsize : ∀ m : Assoc κ α, m.size = m.keys.length := fun m => (List.length_map Prod.fst).symm
  rw [hsize, hsize, keys_insert]
  by_cases h : key ∈ m.keys
  · rw [if_pos h, if_pos ((isSome_get?_iff m key).2 h)]
  · rw [if_neg h, if_neg (fun hsome => h ((isSome_get?_iff m key).1 hsome)), List.length_append,
      List.length_singleton]

end Assoc

end Script
