import Script.Proofs.Store.Objects
import Script.Proofs.Store.Scopes

/-!
# What some objects give access to

Some objects of a store, the *roots*, give access to all that they lead to. Whoever starts with the
roots and follows references, makes objects, and stores what he has in what he has, gains nothing
else: all he gets at is what the roots led to at the start, or is new (`Allowed`), and all else
stays as it was (`Confined`).

* `Confined.change`: a change of one allowed object that lets it refer to allowed ones only;
* `Confined.owner?`, `Confined.lookup?`, `Confined.boundary`: what is found from an allowed scope.
-/

namespace Script.Store

variable {before now after : Store} {roots : Object → Prop} {o : Object}

/-- What the roots lead to in a store. -/
def ReachedFrom (store : Store) (roots : Object → Prop) (o : Object) : Prop :=
  ∃ root, roots root ∧ store.Reaches root o

/-- What the roots give access to, of the objects that there are now: what they led to before,
and what is new. -/
def Allowed (before : Store) (roots : Object → Prop) (now : Store) (o : Object) : Prop :=
  before.ReachedFrom roots o ∨ ¬ before.Has o ∧ now.Has o

/-- **Access has not grown**: allowed objects refer to allowed ones, and what existed before and was
out of reach is as it was. -/
structure Confined (before : Store) (roots : Object → Prop) (now : Store) : Prop where
  has : ∀ o, before.Has o → now.Has o
  closed : ∀ o, Allowed before roots now o → ∀ o' ∈ now.children o, Allowed before roots now o'
  same : ∀ o, before.Has o → ¬ before.ReachedFrom roots o → before.Same now o

theorem Allowed.mono (h : Allowed before roots now o) (hhas : ∀ o, now.Has o → after.Has o) :
    Allowed before roots after o :=
  h.imp_right fun hnew => ⟨hnew.1, hhas o hnew.2⟩

theorem allowed_of_root (h : roots o) : Allowed before roots now o :=
  .inl ⟨o, h, .refl⟩

theorem Confined.start (before : Store) (roots : Object → Prop) : Confined before roots before where
  has _ h := h
  closed := by
    rintro o (⟨root, hroot, hreaches⟩ | ⟨hnot, hhas⟩) o' ho'
    · exact .inl ⟨root, hroot, hreaches.tail ho'⟩
    · exact absurd hhas hnot
  same o _ _ := Same.refl before o

namespace Confined

variable (h : Confined before roots now)
include h

/-- A new object is allowed. -/
theorem allowed_new (hadds : now.AddsAt o after) : Allowed before roots after o :=
  .inr ⟨fun ho => hadds.new (h.has o ho), hadds.has_target⟩

/-- All that an allowed object leads to is allowed. -/
theorem reaches {o' : Object} (ho : Allowed before roots now o) (hreaches : now.Reaches o o') :
    Allowed before roots now o' := by
  induction hreaches with
  | refl => exact ho
  | tail _ hstep ih => exact h.closed _ ih _ hstep

/-- **A change of one allowed object** that lets it refer to allowed ones only gives no more
access. -/
theorem change {target : Object} (hchange : now.ChangesAt target after)
    (htarget : Allowed before roots after target)
    (hchildren : ∀ o ∈ after.children target, Allowed before roots after o) :
    Confined before roots after where
  has o ho := hchange.has o (h.has o ho)
  closed := by
    intro o ho o' ho'
    by_cases heq : o = target
    · exact hchildren o' (heq ▸ ho')
    · -- `o` has not changed, so it was allowed already
      have hsame := hchange.same o heq
      have hallowed : Allowed before roots now o :=
        ho.imp_right fun hnew => ⟨hnew.1, hsame.has_iff.1 hnew.2⟩
      rw [hsame.children_eq] at ho'
      exact (h.closed o hallowed o' ho').mono hchange.has
  same := by
    intro o ho hnot
    -- The changed object is allowed: it was reachable before or did not exist.
    have hne : o ≠ target := by
      rintro rfl
      rcases htarget with hreached | ⟨hnew, -⟩
      · exact hnot hreached
      · exact hnew ho
    exact (h.same o ho hnot).trans (hchange.same o hne)

/-! ### Scopes that are found -/

/-- The scopes around an allowed scope are allowed. -/
theorem chainWithin : ∀ (n : Nat) {ref : Ref .scope}, Allowed before roots now (.scope ref) →
    ∀ r ∈ Store.chainWithin now.scopes n ref, Allowed before roots now (.scope r)
  | 0, _, _, _, hr => by cases hr
  | n + 1, ref, href, r, hr => by
    rw [Store.chainWithin] at hr
    split at hr
    · next parent hparent =>
      obtain ⟨scope, hscope, hp⟩ := Option.bind_eq_some_iff.1 hparent
      rcases List.mem_cons.1 hr with rfl | hr
      · exact href
      · have hallowed := h.closed _ href _ (mem_children_parent hscope hp)
        exact chainWithin n hallowed r hr
    · obtain rfl := List.mem_singleton.1 hr
      exact href

variable {ref : Ref .scope} (href : Allowed before roots now (.scope ref))
include href

theorem owner? {name : String} {owner : Ref .scope} (howner : now.owner? ref name = some owner) :
    Allowed before roots now (.scope owner) :=
  h.chainWithin _ href owner (List.mem_of_find?_eq_some howner)

theorem lookup? {name : String} {value : Value} (hvalue : now.lookup? ref name = some value) :
    ∀ o ∈ value.objects, Allowed before roots now o := by
  intro o ho
  obtain ⟨owner, howner, hbinding⟩ := Option.bind_eq_some_iff.1 hvalue
  exact h.closed _ (h.owner? href howner) o (mem_children_binding hbinding ho)

theorem boundary : Allowed before roots now (.scope (now.boundary ref)) := by
  rw [Store.boundary]
  cases hfind : (now.chain ref).find? fun r => !(now.scopes.get? r).any Scope.passesReturn with
  | none => exact href
  | some b => exact h.chainWithin _ href b (List.mem_of_find?_eq_some hfind)

theorem pendingReturn? {value : Value} (hvalue : now.pendingReturn? ref = some value) :
    ∀ o ∈ value.objects, Allowed before roots now o := by
  intro o ho
  obtain ⟨scope, hscope, hreturned⟩ := Option.bind_eq_some_iff.1 hvalue
  exact h.closed _ (h.boundary href) o (mem_children_returned hscope hreturned ho)

end Confined

end Script.Store
