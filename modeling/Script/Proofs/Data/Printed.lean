import Mathlib.Data.List.Perm.Basic
import Script.Proofs.Data.Stored

/-!
# Values printed as data

A value that is data is printed as that data is written down, with the pairs of each map in the
order of their texts. Two things could stand against it: a container that is met while it is being
printed is printed as dots, and so is one that lies too deep. But data has no cycles, so the
containers that are being printed around one another all differ, and there are no more of them than
the store has.

* `Store.Holds.acc`: what is data does not lead back to itself;
* `Store.Around`: containers that are being printed around a value;
* `Store.Holds.exists_text`: the text of a value is one of the texts of its data.
-/

namespace Script

namespace Store

variable {store : Store} {d : Data} {v : Value}

/-! ### No cycles -/

theorem not_rel_self_of_acc {α : Type} {r : α → α → Prop} {a : α} (h : Acc r a) : ¬ r a a := by
  induction h with
  | intro a _ ih => exact fun haa => ih a haa haa

/-- An object is referred to by another. -/
def IsChild (store : Store) (o o' : Object) : Prop :=
  o ∈ store.children o'

theorem isChild_array {o : Object} {ref : Ref .array} {elements : List Value}
    (href : store.arrays.get? ref = some elements) :
    store.IsChild o (.array ref) ↔ ∃ v ∈ elements, o ∈ v.objects := by
  simp [IsChild, children, href]

theorem isChild_map {o : Object} {ref : Ref .map} {table : Table}
    (href : store.maps.get? ref = some table) :
    store.IsChild o (.map ref) ↔ ∃ q ∈ table.pairs, o ∈ q.2.objects := by
  simp [IsChild, children, href, Table.objects]

/-- **What holds data does not lead back to itself**: from child to child there is an end. -/
theorem Holds.acc (h : store.Holds d v) : ∀ o ∈ v.objects, Acc store.IsChild o := by
  induction d generalizing v with
  | atom a =>
    cases h
    cases a.key <;> exact List.forall_mem_nil _
  | array ds ih =>
    cases h with
    | array href hds =>
      refine List.forall_mem_singleton.2 (.intro _ fun o ho => ?_)
      obtain ⟨v, hv, ho⟩ := (isChild_array href).1 ho
      obtain ⟨d, hd, hdv⟩ := exists_left_of_forall₂ hds v hv
      exact ih d hd hdv o ho
  | map ps ih =>
    cases h with
    | map href hperm hps =>
      refine List.forall_mem_singleton.2 (.intro _ fun o ho => ?_)
      obtain ⟨q, hq, ho⟩ := (isChild_map href).1 ho
      obtain ⟨p, hp, hpq⟩ := exists_left_of_forall₂ hps q hq
      obtain ⟨hdv⟩ := hpq
      exact ih _ (hperm.mem_iff.1 hp) hdv o ho

end Store

/-! ### Texts -/

section Sorting

variable {α β : Type} (text : α → String)

theorem insertBy_perm (x : α) : ∀ xs, (insertBy text x xs).Perm (x :: xs)
  | [] => .refl _
  | next :: rest => by
    rw [insertBy]
    split
    · exact .refl _
    · exact ((insertBy_perm x rest).cons next).trans (.swap x next rest)

/-- Sorting only changes the order. -/
theorem sortBy_perm (xs : List α) : (sortBy text xs).Perm xs := by
  suffices h : ∀ sorted : List α,
      (xs.foldl (fun sorted x => insertBy text x sorted) sorted).Perm (sorted ++ xs) from h []
  induction xs with
  | nil =>
    intro sorted
    rw [List.append_nil]
    exact .refl _
  | cons x xs ih =>
    intro sorted
    refine (ih _).trans (((insertBy_perm text x sorted).append_right xs).trans ?_)
    exact List.perm_middle.symm

theorem insertBy_map (f : β → α) (x : β) (xs : List β) :
    insertBy text (f x) (xs.map f) = (insertBy (fun y => text (f y)) x xs).map f := by
  induction xs with
  | nil => rfl
  | cons next rest ih =>
    rw [List.map_cons, insertBy, insertBy]
    split
    · rfl
    · rw [ih, List.map_cons]

/-- Whether the texts are sorted or what they are texts of makes no difference. -/
theorem sortBy_map (f : β → α) (xs : List β) :
    sortBy text (xs.map f) = (sortBy (fun y => text (f y)) xs).map f := by
  suffices h : ∀ sorted : List β,
      (xs.map f).foldl (fun sorted x => insertBy text x sorted) (sorted.map f) =
        (xs.foldl (fun sorted y => insertBy (fun y => text (f y)) y sorted) sorted).map f from h []
  induction xs with
  | nil => exact fun _ => rfl
  | cons x xs ih =>
    intro sorted
    rw [List.map_cons, List.foldl_cons, List.foldl_cons, insertBy_map]
    exact ih _

end Sorting

/-- The object that a container is. -/
def Container.object : Container → Object
  | .array ref => .array ref
  | .map ref => .map ref

namespace Store

variable {store : Store} {d : Data} {v : Value} {c : Container} {around : List Container} {n : Nat}

/-- The arrays and maps of a store. -/
def containers (store : Store) : List Container :=
  (List.range store.arrays.size).map (.array ⟨·⟩) ++ (List.range store.maps.size).map (.map ⟨·⟩)

theorem length_containers (store : Store) :
    store.containers.length = store.arrays.size + store.maps.size := by
  simp [containers]

theorem mem_containers (h : store.Has c.object) : c ∈ store.containers := by
  cases c with
  | array ref =>
    refine List.mem_append_left _ (List.mem_map.2 ⟨ref.index, List.mem_range.2 ?_, rfl⟩)
    obtain ⟨elements, helements⟩ := Option.isSome_iff_exists.1 h
    exact (Array.getElem?_eq_some_iff.1 helements).1
  | map ref =>
    refine List.mem_append_right _ (List.mem_map.2 ⟨ref.index, List.mem_range.2 ?_, rfl⟩)
    obtain ⟨table, htable⟩ := Option.isSome_iff_exists.1 h
    exact (Array.getElem?_eq_some_iff.1 htable).1

theorem has_of_isChild {o o' : Object} (h : store.IsChild o o') : store.Has o' := by
  cases o' with
  | _ ref =>
    simp only [IsChild, children, List.mem_flatMap, List.mem_map, Option.mem_toList] at h
    obtain ⟨x, hx, -⟩ := h
    exact Option.isSome_of_eq_some hx

/-- **Some containers are being printed around a value**: they all differ, and each leads to the
value over at least one other. -/
structure Around (store : Store) (around : List Container) (v : Value) : Prop where
  nodup : around.Nodup
  leads : ∀ c ∈ around, ∀ o ∈ v.objects, Relation.TransGen store.IsChild o c.object

namespace Around

theorem nil (store : Store) (v : Value) : store.Around [] v :=
  ⟨List.nodup_nil, List.forall_mem_nil _⟩

variable (h : store.Around around v) (hv : v.objects = [c.object])
include h hv

theorem not_mem (hacc : Acc store.IsChild c.object) : c ∉ around := by
  intro hc
  have hcycle := h.leads c hc c.object (hv ▸ List.mem_singleton_self _)
  exact not_rel_self_of_acc hacc.transGen hcycle

/-- What a container holds is printed inside it. -/
theorem cons (hc : c ∉ around) {w : Value} (hw : ∀ o ∈ w.objects, store.IsChild o c.object) :
    store.Around (c :: around) w where
  nodup := List.nodup_cons.2 ⟨hc, h.nodup⟩
  leads := by
    refine List.forall_mem_cons.2 ⟨fun o ho => .single (hw o ho), fun c' hc' o ho => ?_⟩
    exact .head (hw o ho) (h.leads c' hc' c.object (hv ▸ List.mem_singleton_self _))

/-- There is room for another container among all that there are. -/
theorem length_lt (hc : c ∉ around) (hhas : store.Has c.object) :
    around.length < store.arrays.size + store.maps.size := by
  have hall : ∀ c' ∈ c :: around, c' ∈ store.containers := by
    refine List.forall_mem_cons.2 ⟨mem_containers hhas, fun c' hc' => ?_⟩
    have hleads := h.leads c' hc' c.object (hv ▸ List.mem_singleton_self _)
    obtain ⟨o, -, ho⟩ := Relation.TransGen.tail'_iff.1 hleads
    exact mem_containers (has_of_isChild ho)
  have hlength := (List.subperm_of_subset (List.nodup_cons.2 ⟨hc, h.nodup⟩) hall).length_le
  rwa [length_containers] at hlength

/-- A container is printed with what it holds: it is not yet being printed, and as many more may
be as are left. -/
theorem enter (hacc : Acc store.IsChild c.object) (hhas : store.Has c.object)
    (hn : n + around.length = store.arrays.size + store.maps.size + 1) :
    c ∉ around ∧ ∃ m, n = m + 1 ∧
      m + (c :: around).length = store.arrays.size + store.maps.size + 1 := by
  have hnew := h.not_mem hv hacc
  have hroom := h.length_lt hv hnew hhas
  refine ⟨hnew, n - 1, by omega, ?_⟩
  rw [List.length_cons]
  omega

end Around

/-- The text of a value is the text of data that it is, with the pairs of its maps in the order
in which they are printed. -/
theorem Holds.exists_textWithin (h : store.Holds d v) (haround : store.Around around v)
    (hn : n + around.length = store.arrays.size + store.maps.size + 1) :
    ∃ d', store.Holds d' v ∧ store.textWithin n around v = d'.text := by
  induction d generalizing v around n with
  | atom a =>
    cases h
    refine ⟨.atom a, .atom a, ?_⟩
    rw [Data.text]
    cases a.key <;> cases n <;> rfl
  | array ds ih =>
    have hacc := h.acc
    cases h with
    | @array ref es _ href hds =>
      obtain ⟨hnew, m, rfl, hm⟩ := haround.enter (c := .array ref) rfl
        (hacc _ (List.mem_singleton_self _)) (Option.isSome_of_eq_some href) hn
      have helements : ∀ w ∈ es, ∃ d', store.Holds d' w ∧
          d'.text = store.textWithin m (.array ref :: around) w := by
        intro w hw
        obtain ⟨d, hd, hdw⟩ := exists_left_of_forall₂ hds w hw
        have hinside : store.Around (.array ref :: around) w :=
          haround.cons rfl hnew fun o ho => (isChild_array href).2 ⟨w, hw, ho⟩
        obtain ⟨d', hd', htext⟩ := ih d hd hdw hinside hm
        exact ⟨d', hd', htext.symm⟩
      obtain ⟨ds', hds', htexts⟩ := exists_forall₂ helements
      refine ⟨.array ds', .array href hds', ?_⟩
      rw [textWithin, if_neg (by rwa [List.contains_iff_mem]), elements, href, Option.getD_some,
        ← htexts, Data.text, Data.texts_eq_map]
  | map ps ih =>
    have hacc := h.acc
    cases h with
    | @map ref table' _ _ href hperm hps =>
      obtain ⟨hnew, m, rfl, hm⟩ := haround.enter (c := .map ref) rfl
        (hacc _ (List.mem_singleton_self _)) (Option.isSome_of_eq_some href) hn
      have hpairs : ∀ q ∈ table'.pairs, ∃ p', store.HoldsPair p' q ∧ (p'.1.key.text, p'.2.text) =
          (q.1.text, store.textWithin m (.map ref :: around) q.2) := by
        intro q hq
        obtain ⟨p, hp, hpq⟩ := exists_left_of_forall₂ hps q hq
        obtain ⟨hdw⟩ := hpq
        have hinside : store.Around (.map ref :: around) _ :=
          haround.cons rfl hnew fun o ho => (isChild_map href).2 ⟨_, hq, ho⟩
        obtain ⟨d', hd', htext⟩ := ih _ (hperm.mem_iff.1 hp) hdw hinside hm
        exact ⟨_, .pair hd', Prod.ext rfl htext.symm⟩
      obtain ⟨ps', hps', htexts⟩ := exists_forall₂ hpairs
      -- sorting the texts of the pairs puts the pairs themselves in some order
      let ps'' := sortBy (fun p => p.1.key.text) ps'
      have hsorted : sortByText (ps'.map fun p => (p.1.key.text, p.2.text)) =
          ps''.map fun p => (p.1.key.text, p.2.text) := sortBy_map Prod.fst _ ps'
      refine ⟨.map ps'', .map href (sortBy_perm _ ps').symm hps', ?_⟩
      rw [textWithin, if_neg (by rwa [List.contains_iff_mem]), table, href, Option.getD_some]
      show "\x7b" ++ joinWith ", " ((sortByText (table'.pairs.map fun q =>
        (q.1.text, store.textWithin m (.map ref :: around) q.2))).map _) ++ "\x7d" = _
      rw [← htexts, hsorted, List.map_map, Data.text, Data.pairTexts_eq_map]
      rfl

theorem Holds.exists_text (h : store.Holds d v) : ∃ d', store.Holds d' v ∧ store.text v = d'.text :=
  h.exists_textWithin (.nil store v) rfl

end Store

end Script
