import Script.Proofs.Store.Rendering

/-!
# The trees that values unfold to

A value without cycles unfolds to a finite tree: in the place of each array stands what its elements
unfold to, in the place of each map what is under its keys. Nothing is left of which containers are
the same object and of the order in which a map got its keys.

Inside one another stand no more containers than the store has, since none stands inside itself. So
a value without cycles is *shallow* up to that number, and what is said of shallow values is shown
by induction on it.

* `Store.Unfolds`: a value unfolds to a tree, and `Store.Unfolds.unique`: to one only;
* `Store.NoCycle.shallow`: values without cycles are shallow;
* `Store.Shallow.exists_unfolds`: shallow values unfold.
-/

namespace Script

/-- What has nothing inside. Functions are told apart as objects, built-in ones by their
names. -/
inductive Leaf where
  | null
  | integer (value : Integer)
  | boolean (value : Bool)
  | string (value : String)
  | function (ref : Ref .closure)
  | builtin (name : String)
  | error (message : String)

/-- What a value unfolds to: a leaf, the trees of elements in their order, or trees under keys
without any order. -/
inductive Tree where
  | leaf (leaf : Leaf)
  | array (elements : List Tree)
  | map (entries : Key → Option Tree)

/-- Built-in functions of one name are the same. -/
theorem Builtin.name_injective : Function.Injective Builtin.name := by
  intro a b h
  cases a <;> cases b <;> first | rfl | (revert h; decide)

namespace Value

/-- The leaf that a value is, unless it is an array or a map. -/
def leaf? : Value → Option Leaf
  | null => some .null
  | integer value => some (.integer value)
  | boolean value => some (.boolean value)
  | string value => some (.string value)
  | array _ => none
  | map _ => none
  | function ref => some (.function ref)
  | builtin b => some (.builtin b.name)
  | error message => some (.error message)

theorem leaf_or_container (v : Value) : (∃ l, v.leaf? = some l) ∨ ∃ c : Container, v = c.value := by
  cases v with
  | array ref => exact .inr ⟨.array ref, rfl⟩
  | map ref => exact .inr ⟨.map ref, rfl⟩
  | _ => exact .inl ⟨_, rfl⟩

/-- Values that are the same leaf are the same. -/
theorem eq_of_leaf? {v w : Value} {l : Leaf} (hv : v.leaf? = some l) (hw : w.leaf? = some l) :
    v = w := by
  cases w <;> cases hw <;> cases v <;> simp_all [leaf?, Builtin.name_injective.eq_iff]

end Value

@[simp]
theorem Container.leaf?_value (c : Container) : c.value.leaf? = none := by
  cases c <;> rfl

namespace Store

/-! ### Unfolding -/

/-- The tree of a container, where what it holds has trees. -/
def treeOf (store : Store) (trees : Value → Tree) : Container → Tree
  | .array ref => .array ((store.elements ref).map trees)
  | .map ref => .map fun key => ((store.table ref).get? key).map trees

/-- **A value unfolds to a tree.** -/
inductive Unfolds (store : Store) : Value → Tree → Prop where
  | leaf {v l} (h : v.leaf? = some l) : Unfolds store v (.leaf l)
  | whole {c} {trees : Value → Tree} (h : ∀ v ∈ store.contents c, Unfolds store v (trees v)) :
      Unfolds store c.value (store.treeOf trees c)

variable {store : Store} {v w : Value} {c : Container} {t t' : Tree} {n : Nat}

theorem mem_contents_of_get? {ref : Ref .map} {key : Key}
    (h : (store.table ref).get? key = some v) : v ∈ store.contents (.map ref) :=
  List.mem_map.2 ⟨(key, v), Assoc.mem_of_find? h, rfl⟩

/-- The tree of a container depends on the trees of what it holds. -/
theorem treeOf_congr {trees trees' : Value → Tree}
    (h : ∀ v ∈ store.contents c, trees v = trees' v) :
    store.treeOf trees c = store.treeOf trees' c := by
  cases c with
  | array ref => exact congrArg Tree.array (List.map_congr_left h)
  | map ref =>
    refine congrArg Tree.map (funext fun key => Option.map_congr fun v hv => ?_)
    exact h v (mem_contents_of_get? hv)

namespace Unfolds

theorem eq_leaf (h : store.Unfolds v t) {l : Leaf} (hv : v.leaf? = some l) : t = .leaf l := by
  cases h with
  | leaf h => rw [Option.some.inj (h.symm.trans hv)]
  | whole => simp at hv

theorem exists_trees (h : store.Unfolds c.value t) : ∃ trees : Value → Tree,
    (∀ v ∈ store.contents c, store.Unfolds v (trees v)) ∧ t = store.treeOf trees c := by
  generalize hv : c.value = v at h
  cases h with
  | leaf h => simp [← hv] at h
  | whole h =>
    obtain rfl := Container.value_injective hv
    exact ⟨_, h, rfl⟩

/-- **A value unfolds to one tree.** -/
theorem unique (h : store.Unfolds v t) (h' : store.Unfolds v t') : t' = t := by
  induction h generalizing t' with
  | leaf h => exact h'.eq_leaf h
  | whole h ih =>
    obtain ⟨trees', hcontents, rfl⟩ := h'.exists_trees
    exact treeOf_congr fun v hv => ih v hv (hcontents v hv)

end Unfolds

/-! ### Shallow values -/

/-- A value is shallow up to a number of containers that stand inside one another in it. -/
def Shallow (store : Store) : Nat → Value → Prop
  | 0, v => ∀ c : Container, v ≠ c.value
  | n + 1, v => ∀ c : Container, v = c.value → ∀ w ∈ store.contents c, Shallow store n w

theorem Shallow.exists_leaf (h : store.Shallow 0 v) : ∃ l, v.leaf? = some l :=
  v.leaf_or_container.resolve_right fun ⟨c, hc⟩ => h c hc

theorem Shallow.of_contents (h : store.Shallow (n + 1) c.value) (hv : v ∈ store.contents c) :
    store.Shallow n v :=
  h c rfl v hv

/-- **Shallow values unfold**, by induction on the number of containers. -/
theorem Shallow.exists_unfolds (h : store.Shallow n v) : ∃ t, store.Unfolds v t := by
  induction n generalizing v with
  | zero =>
    obtain ⟨l, hl⟩ := h.exists_leaf
    exact ⟨.leaf l, .leaf hl⟩
  | succ n ih =>
    rcases v.leaf_or_container with ⟨l, hl⟩ | ⟨c, rfl⟩
    · exact ⟨.leaf l, .leaf hl⟩
    · have hcontents : ∀ w, ∃ t, w ∈ store.contents c → store.Unfolds w t := by
        intro w
        by_cases hw : w ∈ store.contents c
        · obtain ⟨t, ht⟩ := ih (h.of_contents hw)
          exact ⟨t, fun _ => ht⟩
        · exact ⟨.leaf .null, fun hmem => absurd hmem hw⟩
      choose trees htrees using hcontents
      exact ⟨_, .whole htrees⟩

/-- A value without cycles is shallow up to the number of containers that do not lead to it. -/
theorem NoCycle.shallow_of_card_left_lt (h : store.NoCycle v) {visiting : Finset Container}
    (hvisiting : ∀ c ∈ visiting, ¬ store.LeadsTo v c) (hn : (store.left visiting).card < n) :
    store.Shallow n v := by
  induction n generalizing v visiting with
  | zero => omega
  | succ n ih =>
    rintro c rfl w hw
    have hc : c ∉ visiting := fun hmem => hvisiting c hmem (leadsTo_self c)
    have hlt := card_left_insert_lt hc hw
    have hn' : (store.left (insert c visiting)).card < n := by omega
    refine ih (h.of_contents hw) (fun c' hc' hleads => ?_) hn'
    rcases Finset.mem_insert.1 hc' with rfl | hc'
    · exact h.not_leadsTo hw hleads
    · exact hvisiting c' hc' (hleads.of_contents hw)

theorem NoCycle.shallow (h : store.NoCycle v) :
    store.Shallow (store.arrays.size + store.maps.size + 1) v :=
  h.shallow_of_card_left_lt (fun _ hc => absurd hc (Finset.notMem_empty _))
    (Nat.lt_succ_of_le store.card_left_empty_le)

/-- Values that hold only values of lower rank have no cycles. -/
theorem noCycle_of_rank {rank : Value → Nat}
    (h : ∀ c ∈ store.containers, ∀ v ∈ store.contents c, rank v < rank c.value) (v : Value) :
    store.NoCycle v := by
  have hcontains : ∀ c d, store.Contains c d → rank d.value < rank c.value := by
    intro c d hd
    refine h c ?_ d.value hd
    by_contra hnot
    rw [Contains, contents_eq_nil hnot] at hd
    cases hd
  have hinside : ∀ c d, Relation.TransGen store.Contains c d → rank d.value < rank c.value := by
    intro c d hd
    induction hd with
    | single hd => exact hcontains c _ hd
    | tail _ hd ih => exact (hcontains _ _ hd).trans ih
  exact fun c _ hcycle => Nat.lt_irrefl _ (hinside c c hcycle)

end Store

end Script
