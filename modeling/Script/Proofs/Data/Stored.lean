import Mathlib.Data.List.Perm.Basic
import Script.Proofs.Data.Literal
import Script.Proofs.Store.Containers
import Script.Store.Equality

/-!
# Data in a store

A store holds data as a value: an atom as the value itself, an array or a map by a reference to one
whose contents are the data. One array may be met at many places of the data, and a map holds its
pairs in whatever order, so one value may be held as data of several texts, and one piece of data by
several values.

* `Store.Holds`: a store holds data as a value;
* `Store.Holds.of_keeps`: it does so as long as its arrays and maps stay as they are;
* `Store.Holds.equal`: values that hold the same data are equal.
-/

namespace Script

namespace Store

mutual

/-- **A store holds data as a value**, the pairs of maps in any order. -/
inductive Holds (store : Store) : Data → Value → Prop where
  | atom (a : Atom) : Holds store (.atom a) a.key.toValue
  | array {ref elements ds} : store.arrays.get? ref = some elements →
      List.Forall₂ (Holds store) ds elements → Holds store (.array ds) (.array ref)
  | map {ref table ps ps'} : store.maps.get? ref = some table → ps'.Perm ps →
      List.Forall₂ (HoldsPair store) ps' table.pairs → Holds store (.map ps) (.map ref)

/-- A store holds data under a key. -/
inductive HoldsPair (store : Store) : Atom × Data → Key × Value → Prop where
  | pair {a d v} : Holds store d v → HoldsPair store (a, d) (a.key, v)

end

/-- A value is data that a store holds: integers but the least, truth values, strings that can
be read, and arrays and maps of data, none of which holds itself. -/
def IsData (store : Store) (v : Value) : Prop :=
  ∃ d, store.Holds d v

end Store

/-! ### Lists side by side -/

section Lists

variable {α β γ : Type} {R : α → β → Prop} {as : List α} {bs cs : List β}

theorem forall₂_imp_of_mem {S : α → β → Prop} (h : List.Forall₂ R as bs)
    (hS : ∀ a ∈ as, ∀ b, R a b → S a b) : List.Forall₂ S as bs :=
  ((List.forall₂_and_left as bs).2 ⟨hS, h⟩).imp fun _ _ hab => hab.1 _ hab.2

theorem exists_left_of_forall₂ (h : List.Forall₂ R as bs) : ∀ b ∈ bs, ∃ a ∈ as, R a b := by
  induction h with
  | nil => exact List.forall_mem_nil _
  | @cons a b as bs hab _ ih =>
    refine List.forall_mem_cons.2 ⟨⟨a, List.mem_cons_self, hab⟩, fun b' hb' => ?_⟩
    obtain ⟨a', ha', hab'⟩ := ih b' hb'
    exact ⟨a', List.mem_cons_of_mem _ ha', hab'⟩

theorem exists_right_of_forall₂ (h : List.Forall₂ R as bs) : ∀ a ∈ as, ∃ b ∈ bs, R a b :=
  exists_left_of_forall₂ h.flip

/-- What each element of a list has can be listed beside it. -/
theorem exists_forall₂ {f : α → γ} {g : β → γ} : ∀ {bs : List β},
    (∀ b ∈ bs, ∃ a, R a b ∧ f a = g b) → ∃ as, List.Forall₂ R as bs ∧ as.map f = bs.map g
  | [], _ => ⟨[], .nil, rfl⟩
  | b :: bs, h => by
    obtain ⟨⟨a, hab, hfg⟩, hrest⟩ := List.forall_mem_cons.1 h
    obtain ⟨as, has, hmap⟩ := exists_forall₂ hrest
    exact ⟨a :: as, .cons hab has, List.cons_eq_cons.2 ⟨hfg, hmap⟩⟩

/-- Two lists beside the same list are beside each other. -/
theorem forall₂_of_common {S : β → β → Prop} (h : List.Forall₂ R as bs)
    (h' : List.Forall₂ R as cs) (hS : ∀ a ∈ as, ∀ b c, R a b → R a c → S b c) :
    List.Forall₂ S bs cs := by
  induction h generalizing cs with
  | nil =>
    cases h'
    exact .nil
  | cons hab _ ih =>
    cases h' with
    | cons hac hrest =>
      obtain ⟨hfirst, hothers⟩ := List.forall_mem_cons.1 hS
      exact .cons (hfirst _ _ hab hac) (ih hrest hothers)

end Lists

namespace Store

variable {store after : Store} {d : Data} {v w : Value}

/-! ### Other stores -/

/-- **Data stays** where all arrays and maps stay as they are. -/
theorem Holds.of_keeps (hkeeps : store.KeepsContainers after) (h : store.Holds d v) :
    after.Holds d v := by
  induction d generalizing v with
  | atom a =>
    cases h
    exact .atom a
  | array ds ih =>
    cases h with
    | @array ref _ _ href hds =>
      have hsame := hkeeps (.array ref) trivial (Option.isSome_of_eq_some href)
      exact .array (Eq.trans hsame href) (forall₂_imp_of_mem hds fun d hd v => ih d hd)
  | map ps ih =>
    cases h with
    | @map ref _ _ ps' href hperm hps =>
      have hsame := hkeeps (.map ref) trivial (Option.isSome_of_eq_some href)
      refine .map (Eq.trans hsame href) hperm (forall₂_imp_of_mem hps fun p hp q hpq => ?_)
      obtain ⟨hd⟩ := hpq
      exact .pair (ih _ (hperm.mem_iff.1 hp) hd)

theorem HoldsPair.of_keeps {p : Atom × Data} {q : Key × Value}
    (hkeeps : store.KeepsContainers after) (h : store.HoldsPair p q) : after.HoldsPair p q := by
  obtain ⟨hd⟩ := h
  exact .pair (hd.of_keeps hkeeps)

/-! ### Keys -/

theorem keys_eq_of_forall₂ {ps : List (Atom × Data)} {qs : List (Key × Value)}
    (h : List.Forall₂ store.HoldsPair ps qs) : ps.map (·.1.key) = qs.map Prod.fst := by
  induction h with
  | nil => rfl
  | cons hpq _ ih =>
    obtain ⟨_⟩ := hpq
    exact List.cons_eq_cons.2 ⟨rfl, ih⟩

/-- No key is met twice in a map that a store holds. -/
theorem Holds.nodup_keys {ps : List (Atom × Data)} (h : store.Holds (.map ps) v) :
    (ps.map (·.1.key)).Nodup := by
  cases h with
  | @map _ table _ _ _ hperm hps =>
    rw [← (hperm.map _).nodup_iff, keys_eq_of_forall₂ hps]
    exact table.nodup_keys

end Store

/-! ### Equality -/

theorem matchLists_of_forall₂ {same : Value → Value → Bool} {as bs : List Value}
    (h : List.Forall₂ (fun a b => same a b = true) as bs) : matchLists same as bs = true := by
  induction h with
  | nil => rfl
  | cons hab _ ih => rw [matchLists, hab, ih, Bool.and_self]

theorem matchTables_of_forall_mem {same : Value → Value → Bool} {a b : Table}
    (hsize : a.size = b.size)
    (h : ∀ q ∈ a.pairs, ∃ v, (q.1, v) ∈ b.pairs ∧ same q.2 v = true) :
    matchTables same a b = true := by
  rw [matchTables, hsize, beq_self_eq_true, Bool.true_and, List.all_eq_true]
  intro q hq
  obtain ⟨v, hv, hsame⟩ := h q hq
  have hget : b.get? q.1 = some v := (Assoc.find?_eq_some_iff b.nodup_keys).2 hv
  simp only [hget, hsame]

namespace Store

variable {store : Store} {d : Data} {v w : Value}

/-- Values that hold the same data are equal, however deep they are compared. -/
theorem Holds.equalWithin (h : store.Holds d v) (h' : store.Holds d w) (n : Nat) :
    store.equalWithin n v w = true := by
  induction d generalizing v w n with
  | atom a =>
    cases h
    cases h'
    cases a.key <;> cases n <;> exact beq_self_eq_true _
  | array ds ih =>
    cases h with
    | array href hds =>
      cases h' with
      | array href' hds' =>
        cases n with
        | zero => rfl
        | succ n =>
          rw [Store.equalWithin, elements, elements, href, href', Option.getD_some,
            Option.getD_some]
          refine Bool.or_eq_true_iff.2 (.inr (matchLists_of_forall₂ ?_))
          exact forall₂_of_common hds hds' fun d hd _ _ hv hw => ih d hd hv hw n
  | map ps ih =>
    cases h with
    | map href hperm hps =>
      cases h' with
      | map href' hperm' hps' =>
        cases n with
        | zero => rfl
        | succ n =>
          rw [Store.equalWithin, table, table, href, href', Option.getD_some, Option.getD_some]
          refine Bool.or_eq_true_iff.2 (.inr (matchTables_of_forall_mem ?_ fun q hq => ?_))
          · -- both tables have the pairs of the same data, each in an order of its own
            have hsize := (hperm.trans hperm'.symm).length_eq
            rwa [hps.length_eq, hps'.length_eq] at hsize
          · obtain ⟨p, hp, hpq⟩ := exists_left_of_forall₂ hps q hq
            have hp' := hperm.mem_iff.1 hp
            obtain ⟨q', hq', hpq'⟩ := exists_right_of_forall₂ hps' p (hperm'.mem_iff.2 hp')
            obtain ⟨hv⟩ := hpq
            obtain ⟨hw⟩ := hpq'
            exact ⟨_, hq', ih _ hp' hv hw n⟩

theorem Holds.equal (h : store.Holds d v) (h' : store.Holds d w) : store.equal v w = true :=
  h.equalWithin h' _

end Store

end Script
