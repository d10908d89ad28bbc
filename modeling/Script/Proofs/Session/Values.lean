import Script.Proofs.HashTable
import Script.Proofs.Machine.Values
import Script.Proofs.Session.Containers

/-!
# Errors stay outside the language

Only the host of a session sees an error as a value: it is handed out for a node whose evaluation
has failed, and kept nowhere. At every moment of a session, also right after a failure in the depth
of some calls, all that is bound, left pending or held by a container is a value of the language,
and what refers to an object refers to one that exists.

* `Session.Moment.Proper`: a moment at which nothing holds an error;
* `Session.proper_of_reachable`: every moment of a session;
* `Session.next_error_iff`: what a host is handed out;
* `Session.errors_stay_outside`: values, keys and links over a whole session.
-/

namespace Script

/-- A store in good order. No error is held, keys are of three types, nothing refers to what
does not exist, and the scopes around a scope form no cycle. -/
structure Store.InOrder (store : Store) : Prop where
  /-- What scopes bind or leave pending, and what containers hold, is no error. -/
  ordinary : ∀ o, ∀ value ∈ store.values o, value.type ≠ .error
  /-- The keys of a map are hashable, and so are those of its buckets, however it is stored. -/
  hashable : ∀ ref table, store.maps.get? ref = some table →
    (∀ key ∈ table.keys, key.toValue.Hashable) ∧
      ∀ hash (t : HashTable) pairs, t.Represents hash table → t.Lists pairs →
        ∀ pair ∈ pairs, pair.1.Hashable ∧ pair.2.type ≠ .error
  /-- The scope around a scope exists, and so do the scope that a function was made in and whatever
  a value refers to. -/
  closed : store.Closed
  acyclic : ∀ ref, ¬ Relation.TransGen store.Inside ref ref

namespace HashTable

variable {hash : Key → UInt64} {t : HashTable} {table : Table} {pairs : List (Value × Value)}

/-- A pair that is listed is one of the table that is represented. -/
theorem Represents.of_mem (h : t.Represents hash table) (hpairs : t.Lists pairs)
    {pair : Value × Value} (hpair : pair ∈ pairs) :
    pair.1.Hashable ∧ pair.2 ∈ table.values := by
  have hmem := (h.perm_pairs hpairs).mem_iff.1 hpair
  obtain ⟨⟨key, value⟩, hentry, rfl⟩ := List.mem_map.1 hmem
  exact ⟨key.hashable_toValue, List.mem_map_of_mem hentry⟩

end HashTable

theorem Store.Proper.inOrder {store : Store} (h : store.Proper) (hclosed : store.Closed) :
    store.InOrder where
  ordinary := h.ordinary
  hashable ref table htable := by
    have hvalues : store.values (.map ref) = table.values := by
      simp [Store.values, Store.table, htable]
    refine ⟨fun key _ => key.hashable_toValue, fun hash t pairs ht hpairs pair hpair => ?_⟩
    obtain ⟨hkey, hvalue⟩ := ht.of_mem hpairs hpair
    exact ⟨hkey, h.ordinary (.map ref) _ (hvalues ▸ hvalue)⟩
  closed := hclosed
  acyclic := h.wellFormed.acyclic

namespace Session

open Eval Moment

variable {root : Ref .scope} {x y : Moment} {store : Store}

/-! ### Moments -/

/-- **A moment at which nothing holds an error**, neither the store nor the machine at work. -/
structure Moment.Proper (x : Moment) : Prop where
  store : x.store.Proper
  machine : ∀ m, x.machine? = some m → m.Proper

theorem proper_start : Moment.Proper (.between Store.empty.addRoot.2) where
  store := Store.proper_empty.addScope .root (by rintro p ⟨⟩)
  machine := by rintro m ⟨⟩

theorem Moment.Proper.step (hx : x.Proper) (hsound : x.Sound root) (h : Step root x y) :
    y.Proper := by
  have hat {m : Machine} (hm : m.Proper) : (Moment.node m).Proper ∧ (Moment.program m).Proper :=
    ⟨⟨hm.store, by rintro _ ⟨⟩; exact hm⟩, ⟨hm.store, by rintro _ ⟨⟩; exact hm⟩⟩
  cases h with
  | beginNode store n =>
    have hm : (Machine.ofNode root n store 0).Proper :=
      ⟨hx.store, allOrdinary_nil, by rintro _ ⟨⟩⟩
    exact (hat hm).1
  | beginProgram store p =>
    have hm : (Machine.ofProgram root p store 0).Proper :=
      ⟨hx.store, allOrdinary_singleton Value.ordinary_null, by rintro _ ⟨⟩⟩
    exact (hat hm).2
  | @stepNode m m' h => exact (hat ((hx.machine m rfl).step (hsound.machine m rfl) h)).1
  | @stepProgram m m' h => exact (hat ((hx.machine m rfl).step (hsound.machine m rfl) h)).2
  | endNode h => exact ⟨hx.store.putReturn root allOrdinary_nil, by rintro _ ⟨⟩⟩
  | endProgram h => exact ⟨hx.store, by rintro _ ⟨⟩⟩

/-- **No error is held at any moment of a session**, by induction on its steps. -/
theorem proper_of_reachable (h : Reachable x) : x.Proper := by
  induction h with
  | refl => exact proper_start
  | tail hbefore hstep ih => exact ih.step (sound_of_reachable hbefore) hstep

theorem inOrder_of_reachable (h : Reachable x) : x.store.InOrder :=
  (proper_of_reachable h).store.inOrder (closed_of_reachable h)

/-! ### Results -/

/-- A machine that comes to a value comes to an ordinary one that exists, if nothing was wrong
where it began. -/
theorem ordinary_of_steps {m : Machine} (hm : m.Proper) (hsound : m.Sound) {value : Value}
    {after : Store} (h : m.Steps (Machine.answer [] m.active (.ok value after))) :
    value.Ordinary ∧ ∀ o ∈ value.objects, after.Has o := by
  have hproper : (Machine.mk (.give value) [] after m.active).Proper := hm.steps hsound h
  have hsound' : Machine.Sound ⟨.give value, [], after, m.active⟩ := hsound.steps h
  exact ⟨hproper.task value List.mem_cons_self, fun o ho => hsound'.has_of_mem_task ho⟩

/-- What a request to a session gives is ordinary, and exists. -/
theorem ordinary_results (h : Reachable (.between store)) :
    (∀ n value after, node (callWithin maxCalls) sharedRoot n store = .ok value after →
      value.Ordinary ∧ ∀ o ∈ value.objects, after.Has o) ∧
    ∀ p value after, Eval.program sharedRoot p store = .ok value after →
      value.Ordinary ∧ ∀ o ∈ value.objects, after.Has o := by
  obtain ⟨hnodes, hprograms⟩ := Machine.endsWith_callWithin store sharedRoot (Nat.zero_le maxCalls)
  constructor
  · intro n value after hvalue
    have hbegin : Reachable (.node (.ofNode sharedRoot n store 0)) := h.tail (.beginNode store n)
    exact ordinary_of_steps ((proper_of_reachable hbegin).machine _ rfl)
      ((sound_of_reachable hbegin).machine _ rfl) (hvalue ▸ (hnodes n).steps)
  · intro p value after hvalue
    have hbegin : Reachable (.program (.ofProgram sharedRoot p store 0)) :=
      h.tail (.beginProgram store p)
    exact ordinary_of_steps ((proper_of_reachable hbegin).machine _ rfl)
      ((sound_of_reachable hbegin).machine _ rfl) (hvalue ▸ (hprograms p).steps)

/-- **A host is handed out an error** exactly for a node whose evaluation has failed. -/
theorem next_error_iff (h : Reachable (.between store)) {parser : ParserState} {value : Value}
    (hvalue : (Session.next ⟨sharedRoot, parser, store⟩).1 = .ok (some value)) :
    value.type = .error ↔ ∃ n parser' error after,
      Parse.nextNode maxNesting parser = .ok (some n) parser' ∧
        node (callWithin maxCalls) sharedRoot n store = .error error after ∧
        value = error.toValue := by
  constructor
  · intro herror
    cases hnext : Parse.nextNode maxNesting parser with
    | error error parser' =>
      simp only [Session.next, hnext] at hvalue
      cases hvalue
    | ok found parser' =>
      cases found with
      | none =>
        simp only [Session.next, hnext] at hvalue
        cases hvalue
      | some n =>
        simp only [Session.next, hnext] at hvalue
        cases hnode : node (callWithin maxCalls) sharedRoot n store with
        | error error after =>
          rw [hnode] at hvalue
          cases hvalue
          exact ⟨n, parser', error, after, rfl, hnode, rfl⟩
        | ok result after =>
          -- a value of the language is never an error
          rw [hnode] at hvalue
          cases hvalue
          exact absurd herror ((ordinary_results h).1 n _ after hnode).1
  · rintro ⟨_, _, error, _, -, -, rfl⟩
    rfl

/-! ### A whole session -/

/-- **Errors stay outside the language, and what is stored stays in order.** The stores between
requests are moments of a session, whatever was asked for and however much of it has failed. At
every moment the store is in order, and a machine at work holds no error and nothing that does not
exist. What is evaluated next gives no error as a value; only the host who asks for the next node is
handed one out, exactly if the evaluation of the node has failed. And no table in buckets lists a
key that is not hashable, whatever insertions were tried. -/
theorem errors_stay_outside :
    (∀ requests, Reachable (.between (history requests))) ∧
    (∀ x, Reachable x → x.store.InOrder ∧ ∀ m, x.machine? = some m →
      AllOrdinary m.task.values ∧ (∀ o ∈ m.task.objects, x.store.Has o) ∧
        ∀ frame ∈ m.frames, AllOrdinary frame.values ∧ ∀ o ∈ frame.objects, x.store.Has o) ∧
    (∀ store, Reachable (.between store) →
      (∀ n value after, node (callWithin maxCalls) sharedRoot n store = .ok value after →
        value.type ≠ .error ∧ ∀ o ∈ value.objects, after.Has o) ∧
      (∀ p value after, Eval.program sharedRoot p store = .ok value after →
        value.type ≠ .error ∧ ∀ o ∈ value.objects, after.Has o) ∧
      ∀ parser value, (Session.next ⟨sharedRoot, parser, store⟩).1 = .ok (some value) →
        (value.type = .error ↔ ∃ n parser' error after,
          Parse.nextNode maxNesting parser = .ok (some n) parser' ∧
            node (callWithin maxCalls) sharedRoot n store = .error error after ∧
            value = error.toValue)) ∧
    ∀ hash log pairs, (HashTable.ofInsertions hash log).Lists pairs →
      ∀ pair ∈ pairs, pair.1.Hashable := by
  refine ⟨reachable_history, fun x hx => ⟨inOrder_of_reachable hx, fun m hm => ?_⟩,
    fun store hstore => ?_, fun hash log pairs hpairs pair hpair => ?_⟩
  · -- what a machine at work holds is ordinary and exists
    have hproper := (proper_of_reachable hx).machine m hm
    have hsound := (sound_of_reachable hx).machine m hm
    rw [store_of_machine? hm]
    exact ⟨hproper.task, fun o ho => hsound.has_of_mem_task ho, fun frame hframe =>
      ⟨hproper.frames frame hframe, fun o ho =>
        Machine.allowed_empty_iff.1 (hsound.frames frame hframe o ho)⟩⟩
  · obtain ⟨hnodes, hprograms⟩ := ordinary_results hstore
    exact ⟨hnodes, hprograms, fun parser value hvalue => next_error_iff hstore hvalue⟩
  · -- an insertion of a key that is not hashable is refused
    exact ((HashTable.represents_ofInsertions hash log).of_mem hpairs hpair).1

/-- A function that fails in its own scope, `let f = fn(x) { [x][7] }`, is called by a program that
ends there, and again by the next node of a text. The store is in order, and the host is handed out
an error. -/
theorem errors_stay_outside_failedCall :
    let at0 : Span := .point 0
    let element : Expr := .index (.array [.name ⟨"x", at0⟩] at0) (.integer 7 at0) at0
    let f : Expr := .function [⟨"x", at0⟩] ⟨[.expression element], at0⟩ at0
    let make : Program := ⟨[.binding ⟨"f", at0⟩ f at0,
      .expression (.call (.name ⟨"f", at0⟩) [.boolean true at0] at0)], 0, 0⟩
    let parser := ParserState.ofStream (.ofText "f(0)")
    let store := history [.program make, .next parser]
    let error := Value.error "index out of bounds: the length is 1 but the index is 7"
    store.InOrder ∧ store.elements ⟨0⟩ = [.boolean true] ∧ store.elements ⟨1⟩ = [.integer 0] ∧
      (Session.next ⟨sharedRoot, parser, store⟩).1 = .ok (some error) ∧
      ∃ n parser' failure after, Parse.nextNode maxNesting parser = .ok (some n) parser' ∧
        node (callWithin maxCalls) sharedRoot n store = .error failure after ∧
        error = failure.toValue := by
  intro at0 element f make parser store error
  obtain ⟨hhistory, hmoments, hresults, -⟩ := errors_stay_outside
  have hreachable : Reachable (.between store) := hhistory [.program make, .next parser]
  -- The result is compared without its state, which need not be decided equal.
  have hshown : (Session.next ⟨sharedRoot, parser, store⟩).1.toOption = some (some error) := by
    decide +kernel
  have hnext : (Session.next ⟨sharedRoot, parser, store⟩).1 = .ok (some error) := by
    generalize (Session.next ⟨sharedRoot, parser, store⟩).1 = result at hshown
    cases result with
    | error syntaxError => cases hshown
    | ok found => exact congrArg Except.ok (Option.some.inj hshown)
  have hinOrder : store.InOrder := by
    simpa only [Moment.store] using (hmoments (.between store) hreachable).1
  have hfailed := ((hresults store hreachable).2.2 parser error hnext).1 rfl
  refine ⟨hinOrder, ?_, ?_, hnext, hfailed⟩
  · decide +kernel
  · decide +kernel

end Session

end Script
