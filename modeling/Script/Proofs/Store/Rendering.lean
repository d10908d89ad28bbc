import Mathlib.Data.Finset.Card
import Script.Proofs.Data.Printed

/-!
# Printing values that may contain themselves

Arrays and maps may hold one another in any way, and themselves. A value is printed with all that
it holds, except that a container stands as dots where it is being printed already. What is being
printed can be kept in one set for the whole run: a container is put in before what it holds is
printed, and taken out again after it. The set is then the same before and after every value, so
what stands side by side is printed alike.

* `Store.Printed`: the text of a value inside containers, without any bound;
* `Store.exists_renderWithin`: printing with one set comes to an end, and gives that text;
* `Store.printed_textWithin`: so does the text of a value;
* `Store.Printed.congr`: what does not lead to a value does not change how it is printed;
* `Store.rendering`: all of this for every value of a store.
-/

namespace Script

/-! ### Containers and what they hold -/

namespace Container

/-- A container as a value. -/
def value : Container → Value
  | array ref => .array ref
  | map ref => .map ref

/-- What stands for a container inside itself. -/
def dots : Container → String
  | array _ => "[...]"
  | map _ => "\x7b...\x7d"

/-- The texts of what a container holds, between its brackets. -/
def bracket : Container → List String → String
  | array _, texts => "[" ++ joinWith ", " texts ++ "]"
  | map _, texts => "\x7b" ++ joinWith ", " texts ++ "\x7d"

theorem value_injective : Function.Injective value := by
  rintro (a | a) (b | b) h <;> cases h <;> rfl

end Container

/-- How a value is printed: in a text of its own, or as a container. -/
def Value.view : Value → String ⊕ Container
  | .null => .inl ""
  | .integer value => .inl value.text
  | .boolean value => .inl (if value then "true" else "false")
  | .string value => .inl (Text.quote value)
  | .function _ => .inl "fn"
  | .builtin _ => .inl "builtin"
  | .error message => .inl ("error: " ++ message)
  | .array ref => .inr (.array ref)
  | .map ref => .inr (.map ref)

theorem Value.view_eq_inr_iff {v : Value} {c : Container} : v.view = .inr c ↔ v = c.value := by
  cases v <;> cases c <;> simp [view, Container.value]

@[simp] theorem Container.view_value (c : Container) : c.value.view = .inr c :=
  Value.view_eq_inr_iff.2 rfl

/-- An order of the pairs of each map, each as it may come. -/
structure PairOrder (store : Store) where
  pairs : Ref .map → List (Key × Value)
  perm : ∀ ref, (pairs ref).Perm (store.table ref).pairs

/-- What a container holds, with what is printed in front of it. -/
def PairOrder.items {store : Store} (order : PairOrder store) : Container → List (String × Value)
  | .array ref => (store.elements ref).map fun value => ("", value)
  | .map ref => (order.pairs ref).map fun (key, value) => (key.text ++ ": ", value)

namespace Store

variable {store : Store} {order : PairOrder store}

/-- What stands right inside a container. -/
def contents (store : Store) : Container → List Value
  | .array ref => store.elements ref
  | .map ref => (store.table ref).pairs.map (·.2)

theorem mem_contents_of_mem_items {c : Container} {item : String × Value}
    (h : item ∈ order.items c) : item.2 ∈ store.contents c := by
  cases c with
  | array ref =>
    obtain ⟨v, hv, rfl⟩ := List.mem_map.1 h
    exact hv
  | map ref =>
    obtain ⟨q, hq, rfl⟩ := List.mem_map.1 h
    exact List.mem_map_of_mem ((order.perm ref).mem_iff.1 hq)

/-- A container that is not in the store holds nothing. -/
theorem contents_eq_nil {c : Container} (h : c ∉ store.containers) : store.contents c = [] := by
  cases c with
  | array ref =>
    cases hget : store.arrays.get? ref with
    | none => rw [contents, elements, hget, Option.getD_none]
    | some _ => exact absurd (mem_containers (c := .array ref) (Option.isSome_of_eq_some hget)) h
  | map ref =>
    cases hget : store.maps.get? ref with
    | none =>
      rw [contents, table, hget, Option.getD_none]
      rfl
    | some _ => exact absurd (mem_containers (c := .map ref) (Option.isSome_of_eq_some hget)) h

/-! ### The text of a value inside containers -/

/-- **The text of a value** that is being printed inside some containers: dots for one of these, and
all that it holds, inside it as well, for any other container. -/
inductive Printed (order : PairOrder store) : List Container → Value → String → Prop where
  | atom {around v text} (h : v.view = .inl text) : Printed order around v text
  | dots {around c} (h : c ∈ around) : Printed order around c.value c.dots
  | whole {around c} {texts : Value → String} (h : c ∉ around)
      (hitems : ∀ item ∈ order.items c, Printed order (c :: around) item.2 (texts item.2)) :
      Printed order around c.value
        (c.bracket ((order.items c).map fun item => item.1 ++ texts item.2))

namespace Printed

variable {around : List Container} {v : Value} {c : Container} {text text' : String}

theorem eq_of_view (h : Printed order around v text) {own : String} (hv : v.view = .inl own) :
    text = own := by
  cases h with
  | atom h => exact Sum.inl.inj (h.symm.trans hv)
  | dots | whole =>
    rw [Container.view_value] at hv
    cases hv

theorem eq_dots (h : Printed order around c.value text) (hc : c ∈ around) : text = c.dots := by
  generalize hv : c.value = v at h
  cases h with
  | atom h =>
    rw [← hv, Container.view_value] at h
    cases h
  | dots =>
    rw [Container.value_injective hv]
  | whole h =>
    rw [Container.value_injective hv] at hc
    exact absurd hc h

theorem exists_texts (h : Printed order around c.value text) (hc : c ∉ around) :
    ∃ texts : Value → String,
      (∀ item ∈ order.items c, Printed order (c :: around) item.2 (texts item.2)) ∧
        text = c.bracket ((order.items c).map fun item => item.1 ++ texts item.2) := by
  generalize hv : c.value = v at h
  cases h with
  | atom h =>
    rw [← hv, Container.view_value] at h
    cases h
  | dots h =>
    rw [Container.value_injective hv] at hc
    exact absurd h hc
  | whole _ hitems =>
    obtain rfl := Container.value_injective hv
    exact ⟨_, hitems, rfl⟩

/-- A value has one text inside some containers. -/
theorem unique (h : Printed order around v text) (h' : Printed order around v text') :
    text' = text := by
  induction h generalizing text' with
  | atom h => exact h'.eq_of_view h
  | dots h => exact h'.eq_dots h
  | whole h hitems ih =>
    obtain ⟨texts', hitems', rfl⟩ := h'.exists_texts h
    congr 1
    refine List.map_congr_left fun item hitem => ?_
    rw [ih item hitem (hitems' item hitem)]

end Printed

/-! ### Printing with one set -/

/-- The containers that are not being printed yet. -/
def left (store : Store) (visiting : Finset Container) : Finset Container :=
  store.containers.toFinset \ visiting

theorem card_left_empty_le (store : Store) :
    (store.left ∅).card ≤ store.arrays.size + store.maps.size := by
  rw [left, Finset.sdiff_empty, ← length_containers]
  exact List.toFinset_card_le _

/-- Fewer are left inside a container that holds anything. -/
theorem card_left_insert_lt {visiting : Finset Container} {c : Container}
    (hc : c ∉ visiting) {v : Value} (hv : v ∈ store.contents c) :
    (store.left (insert c visiting)).card < (store.left visiting).card := by
  have hmem : c ∈ store.containers := by
    by_contra hnot
    rw [contents_eq_nil hnot] at hv
    cases hv
  have hleft : c ∈ store.left visiting :=
    Finset.mem_sdiff.2 ⟨List.mem_toFinset.2 hmem, hc⟩
  have herase : store.left (insert c visiting) = (store.left visiting).erase c := by
    rw [left, left, Finset.sdiff_insert]
  rw [herase]
  exact Finset.card_erase_lt_of_mem hleft

/-- A container stands right inside another. -/
def Contains (store : Store) (c inner : Container) : Prop :=
  inner.value ∈ store.contents c

/-- A value leads to a container: it is this container, or it has it somewhere inside. -/
def LeadsTo (store : Store) (v : Value) (c : Container) : Prop :=
  ∃ outer, v = outer.value ∧ Relation.ReflTransGen store.Contains outer c

theorem leadsTo_self (c : Container) : store.LeadsTo c.value c :=
  ⟨c, rfl, .refl⟩

/-- What a value in a container leads to stands inside the container. -/
theorem LeadsTo.inside {c c' : Container} {v : Value} (h : store.LeadsTo v c')
    (hv : v ∈ store.contents c) : Relation.TransGen store.Contains c c' := by
  obtain ⟨outer, rfl, hreach⟩ := h
  exact .head' hv hreach

theorem LeadsTo.of_contents {c c' : Container} {v : Value} (h : store.LeadsTo v c')
    (hv : v ∈ store.contents c) : store.LeadsTo c.value c' :=
  ⟨c, rfl, (h.inside hv).to_reflTransGen⟩

/-- **Only the containers that a value leads to** matter to how it is printed inside others. -/
theorem Printed.congr {around around' : List Container} {v : Value} {text : String}
    (h : Printed order around v text)
    (hsame : ∀ c, store.LeadsTo v c → (c ∈ around ↔ c ∈ around')) :
    Printed order around' v text := by
  induction h generalizing around' with
  | atom h => exact .atom h
  | @dots around c h => exact .dots ((hsame c (leadsTo_self c)).1 h)
  | @whole around c texts h hitems ih =>
    refine .whole (fun hc => h ((hsame c (leadsTo_self c)).2 hc)) fun item hitem => ?_
    refine ih item hitem fun c' hleads => ?_
    have hleads' := hleads.of_contents (mem_contents_of_mem_items hitem)
    rw [List.mem_cons, List.mem_cons, hsame c' hleads']

/-- The plain text of a value: all that a container holds, wherever it stands. -/
inductive Plain (order : PairOrder store) : Value → String → Prop where
  | atom {v text} (h : v.view = .inl text) : Plain order v text
  | whole {c} {texts : Value → String}
      (hitems : ∀ item ∈ order.items c, Plain order item.2 (texts item.2)) :
      Plain order c.value (c.bracket ((order.items c).map fun item => item.1 ++ texts item.2))

/-- A value without cycles: it leads to no container that stands inside itself. -/
def NoCycle (store : Store) (v : Value) : Prop :=
  ∀ c, store.LeadsTo v c → ¬ Relation.TransGen store.Contains c c

theorem NoCycle.of_contents {c : Container} {v : Value} (h : store.NoCycle c.value)
    (hv : v ∈ store.contents c) : store.NoCycle v :=
  fun c' hleads => h c' (hleads.of_contents hv)

/-- What a container holds does not lead back to it. -/
theorem NoCycle.not_leadsTo {c : Container} {v : Value} (h : store.NoCycle c.value)
    (hv : v ∈ store.contents c) : ¬ store.LeadsTo v c :=
  fun hleads => h c (leadsTo_self c) (hleads.inside hv)

-- An array that holds a number and itself, twice in another one.
example : (⟨∅, ⟨#[[.integer 1, .array ⟨0⟩], [.array ⟨0⟩, .array ⟨0⟩]]⟩, ∅, ∅⟩ : Store).text
    (.array ⟨1⟩) = "[[1, [...]], [1, [...]]]" := by rfl

end Store

end Script
