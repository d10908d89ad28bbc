import Script.Proofs.HashTable
import Script.Proofs.Store.Unfolding

/-!
# Equality is structural

Values without cycles are equal exactly if they unfold to one tree. So it does not matter that
containers are shared, nor in which order a map got its keys, and equality is an equivalence.

Two maps are compared in one direction only: they have as many keys, and each key of the one is
found in the other. That is enough, since no key is counted twice. And a container is equal to
itself without a look inside; without cycles this comes to the same, since it unfolds to one tree.

* `matchTables_iff`: tables that match in one direction are the same finite map;
* `Store.equalWithin_iff`: equality is that of the trees, by induction on how deep the values are;
* `Layout.compareWithin`: the comparison step by step, over tables in buckets and without a bound of
  its own, and `Layout.compareWithin_eq`: it ends and gives the same;
* `Store.structural_equality`: what equality is on values without cycles.
-/

namespace Script

/-! ### Lists and tables that match -/

/-- Lists match exactly if they do element by element. -/
theorem matchLists_iff {same : Value → Value → Bool} {as bs : List Value} :
    matchLists same as bs = true ↔ List.Forall₂ (fun v w => same v w = true) as bs := by
  induction as generalizing bs with
  | nil => cases bs <;> simp [matchLists]
  | cons a as ih => cases bs <;> simp [matchLists, ih]

namespace Assoc

variable {κ α : Type} {a b : Assoc κ α}

/-- Keys that are among as many others are the same, since no key occurs twice. -/
theorem keys_perm_of_subset (hkeys : ∀ key ∈ a.keys, key ∈ b.keys) (hsize : a.size = b.size) :
    a.keys.Perm b.keys := by
  have hlength : b.keys.length ≤ a.keys.length := by
    simpa [keys, size] using hsize.ge
  exact (List.subperm_of_subset a.nodup_keys hkeys).perm_of_length_le hlength

theorem size_eq_of_keys (hkeys : ∀ key, key ∈ a.keys ↔ key ∈ b.keys) : a.size = b.size := by
  have hperm := (List.perm_ext_iff_of_nodup a.nodup_keys b.nodup_keys).2 hkeys
  simpa [keys, size] using hperm.length_eq

end Assoc

/-- **Tables that match are the same finite map**: they have the same keys, with values that
match. -/
theorem matchTables_iff {same : Value → Value → Bool} {a b : Table} :
    matchTables same a b = true ↔
      ∀ key, Option.Rel (fun v w => same v w = true) (a.get? key) (b.get? key) := by
  rw [matchTables, Bool.and_eq_true, beq_iff_eq, List.all_eq_true]
  constructor
  · rintro ⟨hsize, hall⟩
    have hfound : ∀ key v, a.get? key = some v → ∃ w, b.get? key = some w ∧ same v w = true := by
      intro key v hv
      have hpair := hall (key, v) (Assoc.mem_of_find? hv)
      dsimp only at hpair
      split at hpair
      · next w hw => exact ⟨w, hw, hpair⟩
      · cases hpair
    have hkeys : a.keys.Perm b.keys := by
      refine Assoc.keys_perm_of_subset (fun key hkey => ?_) hsize
      obtain ⟨v, hv⟩ := Option.isSome_iff_exists.1 ((Assoc.isSome_get?_iff a key).2 hkey)
      obtain ⟨w, hw, -⟩ := hfound key v hv
      exact (Assoc.isSome_get?_iff b key).1 (Option.isSome_of_eq_some hw)
    intro key
    cases hv : a.get? key with
    | some v =>
      obtain ⟨w, hw, hsame⟩ := hfound key v hv
      rw [hw]
      exact .some hsame
    | none =>
      -- the other table has no further keys
      have hnot : ¬ (b.get? key).isSome := by
        rw [Assoc.isSome_get?_iff, ← hkeys.mem_iff, ← Assoc.isSome_get?_iff, hv]
        exact Bool.false_ne_true
      rw [Option.not_isSome_iff_eq_none.1 hnot]
      exact .none
  · intro hrel
    refine ⟨Assoc.size_eq_of_keys fun key => ?_, ?_⟩
    · have hkey := hrel key
      rw [← Assoc.isSome_get?_iff, ← Assoc.isSome_get?_iff]
      generalize a.get? key = found at hkey ⊢
      generalize b.get? key = found' at hkey ⊢
      cases hkey <;> simp
    · rintro ⟨key, v⟩ hpair
      have hget : a.get? key = some v := (Assoc.find?_eq_some_iff a.nodup_keys).2 hpair
      have hkey := hrel key
      rw [hget] at hkey
      dsimp only
      generalize b.get? key = found at hkey ⊢
      cases hkey with
      | some hsame => exact hsame

namespace Store

variable {store : Store} {a b c : Value} {n m : Nat}

/-! ### Containers that match -/

/-- Containers match in a relation of values: arrays element by element, maps in that they have
the same keys with related values. -/
def Matches (store : Store) (R : Value → Value → Prop) : Container → Container → Prop
  | .array a, .array b => List.Forall₂ R (store.elements a) (store.elements b)
  | .map a, .map b => ∀ key, Option.Rel R ((store.table a).get? key) ((store.table b).get? key)
  | _, _ => False

theorem forall₂_iff_map_eq {α β : Type} {R : α → α → Prop} {f g : α → β} {as bs : List α}
    (h : ∀ v ∈ as, ∀ w ∈ bs, (R v w ↔ f v = g w)) : List.Forall₂ R as bs ↔ as.map f = bs.map g := by
  induction as generalizing bs with
  | nil => cases bs <;> simp
  | cons a as ih =>
    cases bs with
    | nil => simp
    | cons b bs =>
      have hhead := h a List.mem_cons_self b List.mem_cons_self
      have htail := ih fun v hv w hw =>
        h v (List.mem_cons_of_mem a hv) w (List.mem_cons_of_mem b hw)
      rw [List.forall₂_cons, hhead, htail, List.map_cons, List.map_cons, List.cons.injEq]

/-- Containers have one tree exactly if they match in a relation that tells whether trees are
the same. -/
theorem treeOf_eq_iff {R : Value → Value → Prop} {f g : Value → Tree} {c d : Container}
    (h : ∀ v ∈ store.contents c, ∀ w ∈ store.contents d, (R v w ↔ f v = g w)) :
    store.treeOf f c = store.treeOf g d ↔ store.Matches R c d := by
  cases c with
  | array a =>
    cases d with
    | array b =>
      have hlists : List.Forall₂ R (store.elements a) (store.elements b) ↔ _ := forall₂_iff_map_eq h
      rw [treeOf, treeOf, Tree.array.injEq, Matches, hlists]
    | map b => simp [treeOf, Matches]
  | map a =>
    cases d with
    | array b => simp [treeOf, Matches]
    | map b =>
      -- A map unfolds to a function of its keys, so the two are compared key by key.
      rw [treeOf, treeOf, Tree.map.injEq, funext_iff, Matches]
      refine forall_congr' fun key => ?_
      cases hv : (store.table a).get? key with
      | none => cases (store.table b).get? key <;> simp
      | some v =>
        cases hw : (store.table b).get? key with
        | none => simp
        | some w => simp [h v (mem_contents_of_get? hv) w (mem_contents_of_get? hw)]

/-! ### Equality is that of the trees -/

theorem equalWithin_of_leaf (h : a.leaf? ≠ none ∨ b.leaf? ≠ none) (m : Nat) :
    store.equalWithin m a b = (a == b) := by
  unfold equalWithin
  split
  · simp [Value.leaf?] at h
  · simp [Value.leaf?] at h
  · simp [Value.leaf?] at h
  · simp [Value.leaf?] at h
  · rfl

/-- Containers are equal if they are the same one, or if they match. -/
theorem equalWithin_succ (c d : Container) :
    store.equalWithin (m + 1) c.value d.value = true ↔
      c = d ∨ store.Matches (fun v w => store.equalWithin m v w = true) c d := by
  cases c with
  | array a =>
    cases d with
    | array b => simp [Container.value, equalWithin, Matches, matchLists_iff]
    | map b => simp [Container.value, equalWithin, Matches]
  | map a =>
    cases d with
    | array b => simp [Container.value, equalWithin, Matches]
    | map b => simp [Container.value, equalWithin, Matches, matchTables_iff]

/-- A leaf is the same as a value exactly if the value unfolds to it. -/
theorem eq_iff_of_leaf {l : Leaf} (ha : a.leaf? = some l) {t u : Tree} (ht : store.Unfolds a t)
    (hu : store.Unfolds b u) : a = b ↔ t = u := by
  obtain rfl := ht.eq_leaf ha
  constructor
  · rintro rfl
    exact (hu.eq_leaf ha).symm
  · intro htree
    cases hu with
    | leaf hb =>
      cases htree
      exact Value.eq_of_leaf? ha hb
    | @whole d trees _ => cases d <;> cases htree

/-- **Shallow values are equal exactly if they unfold to one tree**, by induction on how many
containers stand inside one another. -/
theorem equalWithin_iff (hm : n ≤ m) (ha : store.Shallow n a) (hb : store.Shallow n b) {t u : Tree}
    (ht : store.Unfolds a t) (hu : store.Unfolds b u) :
    store.equalWithin m a b = true ↔ t = u := by
  induction n generalizing m a b t u with
  | zero =>
    obtain ⟨l, hl⟩ := ha.exists_leaf
    rw [equalWithin_of_leaf (.inl (by simp [hl])), beq_iff_eq, eq_iff_of_leaf hl ht hu]
  | succ n ih =>
    rcases a.leaf_or_container with ⟨l, hl⟩ | ⟨c, rfl⟩
    · rw [equalWithin_of_leaf (.inl (by simp [hl])), beq_iff_eq, eq_iff_of_leaf hl ht hu]
    rcases b.leaf_or_container with ⟨l, hl⟩ | ⟨d, rfl⟩
    · rw [equalWithin_of_leaf (.inr (by simp [hl])), beq_iff_eq, eq_comm, eq_iff_of_leaf hl hu ht,
        eq_comm]
    obtain ⟨m, rfl⟩ : ∃ k, m = k + 1 := ⟨m - 1, by omega⟩
    obtain ⟨f, hf, rfl⟩ := ht.exists_trees
    obtain ⟨g, hg, rfl⟩ := hu.exists_trees
    have hcontents : ∀ v ∈ store.contents c, ∀ w ∈ store.contents d,
        (store.equalWithin m v w = true ↔ f v = g w) := fun v hv w hw =>
      ih (by omega) (ha.of_contents hv) (hb.of_contents hw) (hf v hv) (hg w hw)
    rw [equalWithin_succ, ← treeOf_eq_iff hcontents]
    refine or_iff_right_of_imp ?_
    -- a container is equal to itself, and unfolds to one tree
    rintro rfl
    exact (Unfolds.whole hg).unique (.whole hf)

/-- Equality does not depend on which value comes first. -/
theorem equalWithin_comm (hm : n ≤ m) (ha : store.Shallow n a) (hb : store.Shallow n b) :
    store.equalWithin m a b = store.equalWithin m b a := by
  obtain ⟨t, ht⟩ := ha.exists_unfolds
  obtain ⟨u, hu⟩ := hb.exists_unfolds
  rw [Bool.eq_iff_iff, equalWithin_iff hm ha hb ht hu, equalWithin_iff hm hb ha hu ht, eq_comm]

theorem le_equalityDepth (store : Store) :
    store.arrays.size + store.maps.size + 1 ≤ store.equalityDepth :=
  Nat.succ_le_succ (Nat.le_mul_self _)

theorem NoCycle.equal_iff (ha : store.NoCycle a) (hb : store.NoCycle b) {t u : Tree}
    (ht : store.Unfolds a t) (hu : store.Unfolds b u) : store.equal a b = true ↔ t = u :=
  equalWithin_iff store.le_equalityDepth ha.shallow hb.shallow ht hu

/-- Containers without cycles are equal exactly if they match, with equality inside. -/
theorem NoCycle.equal_iff_matches {c d : Container} (hc : store.NoCycle c.value)
    (hd : store.NoCycle d.value) : store.equal c.value d.value = true ↔
      store.Matches (fun v w => store.equal v w = true) c d := by
  obtain ⟨t, ht⟩ := hc.shallow.exists_unfolds
  obtain ⟨u, hu⟩ := hd.shallow.exists_unfolds
  rw [hc.equal_iff hd ht hu]
  obtain ⟨f, hf, rfl⟩ := ht.exists_trees
  obtain ⟨g, hg, rfl⟩ := hu.exists_trees
  exact treeOf_eq_iff fun v hv w hw =>
    (hc.of_contents hv).equal_iff (hd.of_contents hw) (hf v hv) (hg w hw)

end Store

/-! ### The comparison step by step -/

/-- Tables in buckets for the maps of a store, and the pairs of each as they may come. -/
structure Layout (store : Store) (hash : Key → UInt64) where
  table : Ref .map → HashTable
  represents : ∀ ref, (table ref).Represents hash (store.table ref)
  pairs : Ref .map → List (Value × Value)
  lists : ∀ ref, (table ref).Lists (pairs ref)

/-- Compares elements one after another, up to the first two that differ. -/
def compareElements (compare : Value → Value → Option Bool) : List Value → List Value → Option Bool
  | v :: vs, w :: ws =>
    match compare v w with
    | some true => compareElements compare vs ws
    | other => other
  | _, _ => some true

/-- Compares pairs with what a table has under their keys, up to the first that differs. -/
def compareEntries (compare : Value → Value → Option Bool) (get : Value → Option Value) :
    List (Value × Value) → Option Bool
  | [] => some true
  | (key, value) :: rest =>
    match get key with
    | some found =>
      match compare found value with
      | some true => compareEntries compare get rest
      | other => other
    | none => some false

section Compare

variable {compare : Value → Value → Option Bool} {same : Value → Value → Bool}

/-- Where all elements are compared to an end, so are the lists. -/
theorem compareElements_eq {vs ws : List Value} (hlength : vs.length = ws.length)
    (h : ∀ v ∈ vs, ∀ w ∈ ws, compare v w = some (same v w)) :
    compareElements compare vs ws = some (matchLists same vs ws) := by
  induction vs generalizing ws with
  | nil =>
    obtain rfl := List.length_eq_zero_iff.1 hlength.symm
    rfl
  | cons v vs ih =>
    cases ws with
    | nil => cases hlength
    | cons w ws =>
      rw [compareElements, h v List.mem_cons_self w List.mem_cons_self, matchLists]
      cases same v w with
      | false => rfl
      | true =>
        exact ih (Nat.succ.inj hlength) fun v' hv w' hw =>
          h v' (List.mem_cons_of_mem v hv) w' (List.mem_cons_of_mem w hw)

theorem compareEntries_eq {get : Value → Option Value} {pairs : List (Value × Value)}
    (h : ∀ key value found, (key, value) ∈ pairs → get key = some found →
      compare found value = some (same value found)) :
    compareEntries compare get pairs = some (pairs.all fun pair =>
      (get pair.1).any fun found => same pair.2 found) := by
  induction pairs with
  | nil => rfl
  | cons pair pairs ih =>
    obtain ⟨key, value⟩ := pair
    have hrest := ih fun key' value' found hmem => h key' value' found (List.mem_cons_of_mem _ hmem)
    rw [compareEntries, List.all_cons]
    cases hget : get key with
    | none => rfl
    | some found =>
      dsimp only
      rw [h key value found List.mem_cons_self hget, Option.any_some]
      cases same value found with
      | false => rfl
      | true => exact hrest

end Compare

namespace Layout

variable {store : Store} {hash : Key → UInt64} {a b : Value} {n m k : Nat}

/-- What is found under a key of a map; nothing under what may not be a key. -/
def get (layout : Layout store hash) (ref : Ref .map) (key : Value) : Option Value :=
  ((layout.table ref).get hash store key).toOption.join

/-- Compares two values, in a given number of steps down at most. -/
def compareWithin (layout : Layout store hash) : Nat → Value → Value → Option Bool
  | 0, _, _ => none
  | n + 1, .array a, .array b =>
    if a = b then some true
    else if (store.elements a).length = (store.elements b).length then
      compareElements (compareWithin layout n) (store.elements a) (store.elements b)
    else some false
  | n + 1, .map a, .map b =>
    if a = b then some true
    else if (layout.table a).len = (layout.table b).len then
      compareEntries (compareWithin layout n) (layout.get b) (layout.pairs a)
    else some false
  | _ + 1, .builtin a, .builtin b => some (a.name == b.name)
  | _ + 1, a, b => some (a == b)
termination_by structural n => n

/-- Every store has such tables: the keys of each map are inserted one after another. -/
theorem nonempty (store : Store) (hash : Key → UInt64) : Nonempty (Layout store hash) := by
  have hexists : ∀ ref, ∃ t : HashTable, t.Represents hash (store.table ref) := fun ref =>
    HashTable.exists_represents hash (store.table ref)
  choose table htable using hexists
  exact ⟨⟨table, htable, fun ref => (table ref).buckets.pairs.flatMap Prod.snd,
    fun ref => ⟨_, .refl _, rfl⟩⟩⟩

theorem get_toValue (layout : Layout store hash) (ref : Ref .map) (key : Key) :
    layout.get ref key.toValue = (store.table ref).get? key := by
  rw [get, HashTable.get_toValue, (layout.represents ref).found]
  rfl

theorem compareWithin_of_leaf (layout : Layout store hash) (h : a.leaf? ≠ none ∨ b.leaf? ≠ none)
    (k : Nat) : layout.compareWithin (k + 1) a b = some (a == b) := by
  unfold compareWithin
  split
  · contradiction
  · simp [Value.leaf?] at h
  · simp [Value.leaf?] at h
  · rw [Option.some_inj, Bool.eq_iff_iff]
    simp [Builtin.name_injective.eq_iff]
  · rfl

/-- The pairs as they come are those of the map. -/
theorem all_pairs (layout : Layout store hash) (ref : Ref .map) (p : Value × Value → Bool) :
    (layout.pairs ref).all p =
      (store.table ref).pairs.all fun pair => p (pair.1.toValue, pair.2) := by
  rw [((layout.represents ref).perm_pairs (layout.lists ref)).all_eq, List.all_map]
  rfl

theorem mem_contents_of_mem_pairs (layout : Layout store hash) {ref : Ref .map} {key value : Value}
    (h : (key, value) ∈ layout.pairs ref) : value ∈ store.contents (.map ref) := by
  obtain ⟨k, -, hget⟩ := ((layout.represents ref).mem_iff (layout.lists ref)).1 h
  exact Store.mem_contents_of_get? hget

theorem mem_contents_of_get (layout : Layout store hash) {ref : Ref .map} {key value : Value}
    (h : layout.get ref key = some value) : value ∈ store.contents (.map ref) := by
  by_cases hkey : key.key? = none
  · rw [get, HashTable.get_of_none store hkey] at h
    cases h
  · obtain ⟨k, rfl⟩ := Value.exists_key hkey
    rw [layout.get_toValue] at h
    exact Store.mem_contents_of_get? h

theorem compareWithin_array (layout : Layout store hash) {a b : Ref .array}
    (h : ∀ v ∈ store.elements a, ∀ w ∈ store.elements b,
      layout.compareWithin k v w = some (store.equalWithin m v w)) :
    layout.compareWithin (k + 1) (.array a) (.array b) =
      some (store.equalWithin (m + 1) (.array a) (.array b)) := by
  rw [compareWithin, Store.equalWithin]
  by_cases hsame : a = b
  · simp [hsame]
  rw [if_neg hsame, beq_false_of_ne hsame, Bool.false_or]
  by_cases hlength : (store.elements a).length = (store.elements b).length
  · rw [if_pos hlength, compareElements_eq hlength h]
  · have hdiffer : matchLists (store.equalWithin m) (store.elements a) (store.elements b) = false :=
      Bool.eq_false_iff.2 fun hmatch => hlength (matchLists_iff.1 hmatch).length_eq
    rw [if_neg hlength, hdiffer]

/-- Maps are compared the other way round inside: what is found comes first. -/
theorem compareWithin_map (layout : Layout store hash) {a b : Ref .map}
    (h : ∀ v ∈ store.contents (.map a), ∀ w ∈ store.contents (.map b),
      layout.compareWithin k w v = some (store.equalWithin m v w)) :
    layout.compareWithin (k + 1) (.map a) (.map b) =
      some (store.equalWithin (m + 1) (.map a) (.map b)) := by
  rw [compareWithin, Store.equalWithin]
  by_cases hsame : a = b
  · simp [hsame]
  rw [if_neg hsame, beq_false_of_ne hsame, Bool.false_or, (layout.represents a).len_eq,
    (layout.represents b).len_eq, matchTables]
  by_cases hsize : (store.table a).size = (store.table b).size
  · -- With equal sizes it is enough to look up each pair of the first in the second.
    have hentries : ∀ key value found, (key, value) ∈ layout.pairs a →
        layout.get b key = some found →
        layout.compareWithin k found value = some (store.equalWithin m value found) :=
      fun key value found hmem hget =>
        h value (layout.mem_contents_of_mem_pairs hmem) found (layout.mem_contents_of_get hget)
    rw [if_pos hsize, compareEntries_eq hentries, hsize, beq_self_eq_true, Bool.true_and,
      layout.all_pairs]
    refine congrArg some (congrArg _ (funext ?_))
    rintro ⟨key, value⟩
    dsimp only
    rw [layout.get_toValue]
    cases (store.table b).get? key <;> rfl
  · rw [if_neg hsize, beq_false_of_ne hsize, Bool.false_and]

/-- **The comparison of shallow values ends** and tells whether they are equal, by induction on how
many containers stand inside one another. -/
theorem compareWithin_eq (layout : Layout store hash) (hk : n < k) (hm : n ≤ m)
    (ha : store.Shallow n a) (hb : store.Shallow n b) :
    layout.compareWithin k a b = some (store.equalWithin m a b) := by
  induction n generalizing k m a b with
  | zero =>
    obtain ⟨k, rfl⟩ : ∃ i, k = i + 1 := ⟨k - 1, by omega⟩
    obtain ⟨l, hl⟩ := ha.exists_leaf
    have hleaf : a.leaf? ≠ none ∨ b.leaf? ≠ none := .inl (by simp [hl])
    rw [layout.compareWithin_of_leaf hleaf, Store.equalWithin_of_leaf hleaf]
  | succ n ih =>
    obtain ⟨k, rfl⟩ : ∃ i, k = i + 1 := ⟨k - 1, by omega⟩
    obtain ⟨m, rfl⟩ : ∃ i, m = i + 1 := ⟨m - 1, by omega⟩
    -- A leaf on one side is compared at once; below it both are containers.
    by_cases hleaf : a.leaf? ≠ none ∨ b.leaf? ≠ none
    · rw [layout.compareWithin_of_leaf hleaf, Store.equalWithin_of_leaf hleaf]
    cases a with
    | array a =>
      cases b with
      | array b =>
        refine layout.compareWithin_array fun v hv w hw => ?_
        exact ih (by omega) (by omega) (ha.of_contents (c := .array a) hv)
          (hb.of_contents (c := .array b) hw)
      | map b => simp [compareWithin, Store.equalWithin]
      | _ => simp [Value.leaf?] at hleaf
    | map a =>
      cases b with
      | array b => simp [compareWithin, Store.equalWithin]
      | map b =>
        refine layout.compareWithin_map fun v hv w hw => ?_
        have hv' : store.Shallow n v := ha.of_contents (c := .map a) hv
        have hw' : store.Shallow n w := hb.of_contents (c := .map b) hw
        have hm' : n ≤ m := Nat.le_of_succ_le_succ hm
        -- The sides are exchanged inside a map, which does not matter, for equality is symmetric at
        -- this depth.
        rw [ih (by omega) hm' hw' hv', Store.equalWithin_comm hm' hw' hv']
      | _ => simp [Value.leaf?] at hleaf
    | _ => simp [Value.leaf?] at hleaf

end Layout

namespace Store

variable {store : Store} {a b c : Value}

/-- **Equality of values without cycles is structural**, and an equivalence. Compared step by step,
over tables in buckets of any kind, two values come to an answer, and it is whether they unfold to
one tree. Arrays are equal element by element, maps as finite maps, functions if they are the same
object, built-in ones if they have one name; and values of different types never are. -/
theorem structural_equality (ha : store.NoCycle a) (hb : store.NoCycle b) (hc : store.NoCycle c) :
    (∀ hash, Nonempty (Layout store hash) ∧ ∀ (layout : Layout store hash) n,
      store.arrays.size + store.maps.size + 1 < n →
        layout.compareWithin n a b = some (store.equal a b)) ∧
    (∃ t, ∀ t', store.Unfolds a t' ↔ t' = t) ∧
    (store.equal a b = true ↔ ∃ t, store.Unfolds a t ∧ store.Unfolds b t) ∧
    store.equal a a = true ∧
    store.equal a b = store.equal b a ∧
    (store.equal a b = true → store.equal b c = true → store.equal a c = true) ∧
    (∀ x y : Container, a = x.value → b = y.value →
      (store.equal a b = true ↔ store.Matches (fun v w => store.equal v w = true) x y)) ∧
    (∀ f g, a = .function f → b = .function g → (store.equal a b = true ↔ f = g)) ∧
    (∀ f g, a = .builtin f → b = .builtin g → (store.equal a b = true ↔ f.name = g.name)) ∧
    (a.type ≠ b.type → store.equal a b = false) := by
  -- Each of the values has one tree, and equality is that of trees; the laws of an equivalence
  -- follow.
  obtain ⟨t, ht⟩ := ha.shallow.exists_unfolds
  obtain ⟨u, hu⟩ := hb.shallow.exists_unfolds
  obtain ⟨w, hw⟩ := hc.shallow.exists_unfolds
  refine ⟨fun hash => ⟨Layout.nonempty store hash, fun layout n hn => ?_⟩, ⟨t, fun t' => ?_⟩, ?_,
    (ha.equal_iff ha ht ht).2 rfl, equalWithin_comm store.le_equalityDepth ha.shallow hb.shallow,
    ?_, ?_, ?_, ?_, ?_⟩
  · exact layout.compareWithin_eq hn store.le_equalityDepth ha.shallow hb.shallow
  · exact ⟨ht.unique, fun heq => heq ▸ ht⟩
  · rw [ha.equal_iff hb ht hu]
    constructor
    · rintro rfl
      exact ⟨t, ht, hu⟩
    · rintro ⟨both, hboth, hboth'⟩
      rw [← ht.unique hboth, ← hu.unique hboth']
  · rw [ha.equal_iff hb ht hu, hb.equal_iff hc hu hw, ha.equal_iff hc ht hw]
    exact Eq.trans
  · rintro x y rfl rfl
    exact ha.equal_iff_matches hb
  · rintro f g rfl rfl
    rw [equal, equalWithin_of_leaf (.inl (by simp [Value.leaf?]))]
    simp
  · rintro f g rfl rfl
    rw [equal, equalWithin_of_leaf (.inl (by simp [Value.leaf?])), Builtin.name_injective.eq_iff]
    simp
  · exact fun hne => Bool.eq_false_iff.2 fun hequal => hne (type_eq_of_equal store hequal)

/-- Two maps with two arrays each, under the same keys in different order. The arrays of the one are
two objects, those of the other are one. -/
theorem structural_equality_shared :
    let store : Store := ⟨∅, ⟨#[[.integer 1], [.integer 1]]⟩,
      ⟨#[(Assoc.empty.insert (.string "a") (.array ⟨0⟩)).insert (.boolean true) (.array ⟨1⟩),
        (Assoc.empty.insert (.boolean true) (.array ⟨0⟩)).insert (.string "a") (.array ⟨0⟩)]⟩, ∅⟩
    store.NoCycle (.map ⟨0⟩) ∧ store.NoCycle (.map ⟨1⟩) ∧
      (∃ t, store.Unfolds (.map ⟨0⟩) t ∧ store.Unfolds (.map ⟨1⟩) t) ∧
      ∃ layout : Layout store fun _ => 0,
        layout.compareWithin 6 (.map ⟨0⟩) (.map ⟨1⟩) = some true := by
  intro store
  let rank : Value → Nat := fun | .map _ => 2 | .array _ => 1 | _ => 0
  have hrank : ∀ c ∈ store.containers, ∀ v ∈ store.contents c, rank v < rank c.value := by
    decide +kernel
  have hnone := noCycle_of_rank hrank
  have hequal : store.equal (.map ⟨0⟩) (.map ⟨1⟩) = true := by decide +kernel
  obtain ⟨hends, -, hunfolds, -⟩ :=
    structural_equality (hnone (.map ⟨0⟩)) (hnone (.map ⟨1⟩)) (hnone (.map ⟨1⟩))
  obtain ⟨⟨layout⟩, hends⟩ := hends fun _ => 0
  refine ⟨hnone _, hnone _, hunfolds.1 hequal, layout, ?_⟩
  rw [hends layout 6 (by decide +kernel), hequal]

end Store

end Script
