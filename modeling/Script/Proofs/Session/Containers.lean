import Script.Proofs.Machine.Containers
import Script.Proofs.Session.History

/-!
# Containers over a session

A session is followed step by step: between two requests there is a store alone, and while one is
served a machine is at work. Over all its moments, and so also where a request fails half-way, an
array or a map changes by index assignments to itself alone. So an array keeps its length and a map
its keys, and what is made anew shares nothing with what it was made of but the elements.

* `Session.Moment.Step`: what happens next in a session;
* `Session.reachable_history`: the stores between requests are the ones that requests lead to;
* `Session.containers_change_by_assignment`: what happens to arrays and maps.
-/

namespace Script

namespace Session

open Eval

/-! ### Moments of a session -/

/-- A moment of a session: between two requests, or on the way through a node or a program. -/
inductive Moment where
  | between (store : Store)
  | node (m : Machine)
  | program (m : Machine)

namespace Moment

/-- The store at a moment. -/
def store : Moment → Store
  | between store => store
  | node m => m.store
  | program m => m.store

/-- The machine that is at work, if a request is being served. -/
def machine? : Moment → Option Machine
  | between _ => none
  | node m => some m
  | program m => some m

/-- **What happens next.** A request puts a machine to work in the root; the machine makes its
steps, and leaves its store behind when it has come to its result. After a node, a return that it
has left pending is dropped. -/
inductive Step (root : Ref .scope) : Moment → Moment → Prop
  | beginNode (store : Store) (n : Node) :
      Step root (.between store) (.node (.ofNode root n store 0))
  | beginProgram (store : Store) (p : Program) :
      Step root (.between store) (.program (.ofProgram root p store 0))
  | stepNode {m m' : Machine} (h : m.step = some m') : Step root (.node m) (.node m')
  | stepProgram {m m' : Machine} (h : m.step = some m') : Step root (.program m) (.program m')
  | endNode {m : Machine} (h : m.step = none) :
      Step root (.node m) (.between (m.store.clearReturn root))
  | endProgram {m : Machine} (h : m.step = none) : Step root (.program m) (.between m.store)

/-- A moment comes later than another, or is the same. -/
abbrev Later (root : Ref .scope) : Moment → Moment → Prop :=
  Relation.ReflTransGen (Step root)

end Moment

open Moment

/-- A moment of a session over the shared root, which begins with the root alone. -/
def Reachable (x : Moment) : Prop :=
  Later sharedRoot (.between Store.empty.addRoot.2) x

variable {root : Ref .scope} {x y : Moment}

/-! ### The stores between requests -/

theorem later_node {m m' : Machine} (h : m.Steps m') : Later root (.node m) (.node m') := by
  induction h with
  | refl => exact .refl
  | tail _ hstep ih => exact ih.tail (.stepNode hstep)

theorem later_program {m m' : Machine} (h : m.Steps m') :
    Later root (.program m) (.program m') := by
  induction h with
  | refl => exact .refl
  | tail _ hstep ih => exact ih.tail (.stepProgram hstep)

theorem store_answer (active : Nat) (r : EStateM.Result RuntimeError Store Value) :
    (Machine.answer [] active r).store = storeAfter r := by
  cases r <;> rfl

theorem serve_next_of_some (store : Store) {parser parser' : ParserState} {n : Node}
    (h : Parse.nextNode maxNesting parser = .ok (some n) parser') :
    serve root store (.next parser) =
      (storeAfter (node (callWithin maxCalls) root n store)).clearReturn root := by
  simp only [serve, Session.next, h]
  cases node (callWithin maxCalls) root n store <;> rfl

/-- A request is served in steps. -/
theorem later_serve (root : Ref .scope) (store : Store) (request : Request) :
    Later root (.between store) (.between (serve root store request)) := by
  obtain ⟨hnodes, hprograms⟩ := Machine.endsWith_callWithin store root (Nat.zero_le maxCalls)
  cases request with
  | next parser =>
    cases hnext : Parse.nextNode maxNesting parser with
    | error error parser' =>
      simp only [serve, Session.next, hnext]
      exact .refl
    | ok found parser' =>
      cases found with
      | none =>
        simp only [serve, Session.next, hnext]
        exact .refl
      | some n =>
        -- The machine starts at the node, runs to the answer of the evaluator, and leaves it to the
        -- session.
        have hend : Step root
            (.node (Machine.answer [] 0 (node (callWithin maxCalls) root n store)))
            (.between (serve root store (.next parser))) := by
          rw [serve_next_of_some store hnext, ← store_answer 0]
          exact .endNode (Machine.step_answer_nil _)
        exact ((later_node (hnodes n).steps).head (.beginNode store n)).tail hend
  | program p =>
    have hend : Step root (.program (Machine.answer [] 0 (Eval.program root p store)))
        (.between (serve root store (.program p))) := by
      rw [serve, ← store_answer 0]
      exact .endProgram (Machine.step_answer_nil _)
    exact ((later_program (hprograms p).steps).head (.beginProgram store p)).tail hend

/-- More requests come later. -/
theorem later_history (requests more : List Request) :
    Later sharedRoot (.between (history requests)) (.between (history (requests ++ more))) := by
  unfold history
  rw [List.foldl_append]
  generalize requests.foldl (serve sharedRoot) Store.empty.addRoot.2 = store
  induction more generalizing store with
  | nil => exact .refl
  | cons request more ih => exact (later_serve sharedRoot store request).trans (ih _)

/-- **The stores that requests lead to** are those between requests. -/
theorem reachable_history (requests : List Request) : Reachable (.between (history requests)) :=
  later_history [] requests

/-! ### Nothing dangles -/

/-- At a moment of a session nothing refers to what does not exist, and the root does exist. -/
structure Moment.Sound (root : Ref .scope) (x : Moment) : Prop where
  confined : Store.Confined .empty (fun _ => False) x.store
  has_root : x.store.Has (.scope root)
  machine : ∀ m, x.machine? = some m → m.Sound

theorem sound_start : Moment.Sound sharedRoot (.between Store.empty.addRoot.2) where
  confined := Machine.confined_empty_iff.2 Machine.closed_addRoot
  has_root := rfl
  machine := by rintro m ⟨⟩

/-- A machine that begins in the root holds nothing else. -/
theorem sound_begin (hx : x.Sound root) {m : Machine} (hstore : m.store = x.store)
    (htask : ∀ o ∈ m.task.objects, o = .scope root) (hframes : m.frames = []) : m.Sound := by
  refine ⟨hstore ▸ hx.confined, fun o ho => ?_, by simp [hframes]⟩
  rw [htask o ho, hstore]
  exact Machine.allowed_empty_iff.2 hx.has_root

theorem Moment.Sound.step (hx : x.Sound root) (h : Step root x y) : y.Sound root := by
  -- A moment is sound if its machine is, for a machine at work has the store of the moment.
  have hat {m : Machine} (hm : m.Sound) (hroot : m.store.Has (.scope root)) :
      (Moment.node m).Sound root ∧ (Moment.program m).Sound root :=
    ⟨⟨hm.store, hroot, by rintro _ ⟨⟩; exact hm⟩, ⟨hm.store, hroot, by rintro _ ⟨⟩; exact hm⟩⟩
  cases h with
  | beginNode store n =>
    have hm : (Machine.ofNode root n store 0).Sound :=
      sound_begin hx rfl (fun o ho => List.mem_singleton.1 ho) rfl
    exact (hat hm hx.has_root).1
  | beginProgram store p =>
    have hm : (Machine.ofProgram root p store 0).Sound :=
      sound_begin hx rfl (fun o ho => List.mem_singleton.1 ho) rfl
    exact (hat hm hx.has_root).2
  | @stepNode m m' h =>
    exact (hat ((hx.machine m rfl).step h) (Machine.has_step h hx.has_root)).1
  | @stepProgram m m' h =>
    exact (hat ((hx.machine m rfl).step h) (Machine.has_step h hx.has_root)).2
  | @endNode m h =>
    -- The end of a node clears what it has returned in the scope of the session, which gives access
    -- to nothing.
    have hclear : Machine.Safe .empty (fun _ => False) m.store (fun _ : Unit => [])
        (.ok () (m.store.clearReturn root)) :=
      Machine.safe_putReturn hx.confined (Machine.allowed_empty_iff.2 hx.has_root)
        Machine.allAllowed_nil
    exact ⟨hclear.1, hclear.2.1 _ hx.has_root, by rintro _ ⟨⟩⟩
  | @endProgram m h => exact ⟨hx.confined, hx.has_root, by rintro _ ⟨⟩⟩

theorem Moment.Sound.later (hx : x.Sound root) (h : Later root x y) : y.Sound root := by
  induction h with
  | refl => exact hx
  | tail _ hstep ih => exact ih.step hstep

theorem sound_of_reachable (h : Reachable x) : x.Sound sharedRoot :=
  sound_start.later h

/-- The store of every moment of a session is closed. -/
theorem closed_of_reachable (h : Reachable x) : x.store.Closed :=
  Machine.confined_empty_iff.1 (sound_of_reachable h).confined

/-! ### What happens to containers -/

/-- An index assignment is performed between two moments. -/
def Moment.Assigns (x : Moment) (place : Place) (value : Value) (y : Moment) : Prop :=
  ∃ m m', x.machine? = some m ∧ y.machine? = some m' ∧ m.Assigns place value m'

theorem store_of_machine? {m : Machine} (h : x.machine? = some m) : x.store = m.store := by
  cases x <;> cases h <;> rfl

theorem keepsContainers_or_assigns_of_step {m m' : Machine} (hx : x.Sound root)
    (hm : x.machine? = some m) (hm' : y.machine? = some m') (h : m.step = some m') :
    x.store.KeepsContainers y.store ∨
      ∃ place value, x.Assigns place value y ∧ x.store.Assigned place value y.store := by
  rw [store_of_machine? hm, store_of_machine? hm']
  refine (Machine.keepsContainers_or_assigns h).imp_right ?_
  rintro ⟨place, value, hassigns⟩
  exact ⟨place, value, ⟨m, m', hm, hm', hassigns⟩, hassigns.assigned (hx.machine m hm)⟩

/-- A step changes no container that is there, or it is an index assignment. -/
theorem keepsContainers_or_assigns (hx : x.Sound root) (h : Step root x y) :
    x.store.KeepsContainers y.store ∨
      ∃ place value, x.Assigns place value y ∧ x.store.Assigned place value y.store := by
  cases h with
  | beginNode store n => exact .inl (.refl store)
  | beginProgram store p => exact .inl (.refl store)
  | stepNode h => exact keepsContainers_or_assigns_of_step hx rfl rfl h
  | stepProgram h => exact keepsContainers_or_assigns_of_step hx rfl rfl h
  | endNode h => exact .inl (keepsContainers_putReturn _ root none)
  | endProgram h => exact .inl (.refl _)

/-- Containers keep their shape from one moment to every later one. -/
theorem keepsShape_later (hx : x.Sound root) (h : Later root x y) (o : Object) :
    x.store.KeepsShape y.store o := by
  induction h with
  | refl => exact .refl _ o
  | tail hbefore hstep ih =>
    refine ih.trans ?_
    rcases keepsContainers_or_assigns (hx.later hbefore) hstep with hkeeps | ⟨_, _, -, hassigned⟩
    · exact hkeeps.keepsShape o
    · exact hassigned.keepsShape o

/-- A container that has changed has been assigned to by an index. -/
theorem exists_assigns_of_not_same (hx : x.Sound root) (h : Later root x y) {o : Object}
    (hcontainer : o.IsContainer) (ho : x.store.Has o) (hchanged : ¬ x.store.Same y.store o) :
    ∃ x' y' place value, Later root x x' ∧ x'.Assigns place value y' ∧ place.container = o ∧
      Later root y' y := by
  induction h with
  | refl => exact absurd (.refl _ o) hchanged
  | @tail y z hbefore hstep ih =>
    by_cases hsame : x.store.Same y.store o
    · -- it changes in the last step, which then is an index assignment to it
      rcases keepsContainers_or_assigns (hx.later hbefore) hstep with hkeeps | ⟨place, value, h⟩
      · exact absurd (hsame.trans (hkeeps o hcontainer (hsame.has_iff.2 ho))) hchanged
      · refine ⟨y, z, place, value, hbefore, h.1, ?_, .refl⟩
        refine Classical.byContradiction fun hne => ?_
        exact hchanged (hsame.trans (h.2.others o (Ne.symm hne)))
    · obtain ⟨x', y', place, value, hx', hassigns, hplace, hy'⟩ := ih hsame
      exact ⟨x', y', place, value, hx', hassigns, hplace, hy'.tail hstep⟩

/-- **Containers change by index assignments alone.** Over a whole session every array keeps its
length and every map its keys. A step changes no container that is there, or it is an index
assignment, and then it changes one element or one key; so a container is the same later, unless it
has been assigned to itself. A built-in function changes no object at all. Literals of arrays and
maps, and the arrays that `rest` and `push` give, are new objects to which nothing else refers. -/
theorem containers_change_by_assignment :
    (∀ requests more o, (history requests).KeepsShape (history (requests ++ more)) o) ∧
    (∀ x y, Reachable x → Later sharedRoot x y → ∀ o, x.store.KeepsShape y.store o) ∧
    (∀ x y, Reachable x → Step sharedRoot x y → x.store.KeepsContainers y.store ∨
      ∃ place value, x.Assigns place value y ∧ x.store.Assigned place value y.store) ∧
    (∀ x y o, Reachable x → Later sharedRoot x y → o.IsContainer → x.store.Has o →
      ¬ x.store.Same y.store o → ∃ x' y' place value, Later sharedRoot x x' ∧
        x'.Assigns place value y' ∧ place.container = o ∧ Later sharedRoot y' y) ∧
    (∀ b arguments span (store : Store) o, store.Has o →
      store.Same (storeAfter (callBuiltin b arguments span store)) o) ∧
    ∀ x m, Reachable x → x.machine? = some m → m.MakesAnew := by
  refine ⟨fun requests more o => ?_, fun x y hx h => ?_, fun x y hx h => ?_,
    fun x y o hx h hcontainer => ?_, fun b arguments span store o ho => ?_, fun x m hx hm => ?_⟩
  · exact keepsShape_later (sound_of_reachable (reachable_history requests))
      (later_history requests more) o
  · exact keepsShape_later (sound_of_reachable hx) h
  · exact keepsContainers_or_assigns (sound_of_reachable hx) h
  · exact exists_assigns_of_not_same (sound_of_reachable hx) h hcontainer
  · exact same_callBuiltin b arguments span store ho
  · exact ((sound_of_reachable hx).machine m hm).makesAnew

/-- An array is pushed to itself, and then the new array is assigned to: `let a = [1]`, and after it
`let b = push(a, a); b[0] = 5`. -/
theorem containers_change_by_assignment_push :
    let at0 : Span := .point 0
    let a : Expr := .name ⟨"a", at0⟩
    let b : Expr := .name ⟨"b", at0⟩
    let make : Program := ⟨[.binding ⟨"a", at0⟩ (.array [.integer 1 at0] at0) at0], 0, 0⟩
    let extend : Program := ⟨[
      .binding ⟨"b", at0⟩ (.call (.name ⟨"push", at0⟩) [a, a] at0) at0,
      .expression (.assign (.index b (.integer 0 at0) at0) (.integer 5 at0) at0)], 0, 0⟩
    let before := history [.program make]
    let after := history [.program make, .program extend]
    before.KeepsShape after (.array ⟨0⟩) ∧ before.elements ⟨0⟩ = [.integer 1] ∧
      after.elements ⟨0⟩ = [.integer 1] ∧ after.elements ⟨1⟩ = [.integer 5, .array ⟨0⟩] := by
  intro at0 a b make extend before after
  refine ⟨containers_change_by_assignment.1 [.program make] [.program extend] (.array ⟨0⟩), ?_, ?_,
    ?_⟩
  · decide +kernel
  · decide +kernel
  · decide +kernel

end Session

end Script
