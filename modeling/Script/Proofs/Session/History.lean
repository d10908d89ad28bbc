import Script.Proofs.Eval.Confinement
import Script.Proofs.Machine.Returns
import Script.Session

/-!
# No return outlives what left it

A host asks for one thing after another over the same root: the next node of some text, or a whole
program. Each request may fail at any point, in any depth of calls, and the scopes of calls that
were given up may live on in functions. Still nothing is ever pending between two requests, neither
in the root nor in any other scope; and while one is served, nothing is evaluated where a return is
pending.

* `Eval.keeps_topLevel`: the nodes of a program take every return that they leave;
* `Session.atRest_serve`: one request leaves a store at rest;
* `Session.no_return_left_pending`: so does any sequence of them, and the next one starts quietly.
-/

namespace Script

namespace Eval

variable {α : Type} {s : Store} {scope : Ref .scope}

theorem Keeps.storeAfter {x : Eval α} (h : Keeps x s) : s.KeepsReturns (storeAfter (x s)) := by
  cases hx : x s with
  | ok a s' => exact h.of_ok hx
  | error e s' => exact h.of_error hx

/-- **The nodes of a program keep the returns**, for what a node leaves is taken right after it. -/
theorem keeps_topLevel {call : Caller} (hcall : KeepsCalls call) : ∀ (ns : List Node) (last : Value)
    {s : Store}, s.WellFormed → s.HasScope scope → s.pendingReturn? scope = none →
    Keeps (topLevel call scope last ns) s
  | [], last, s, hs, _, _ => by
    rw [topLevel]
    exact keeps_pure hs last
  | n :: rest, last, s, hs, hscope, hnone => by
    have hending := (leaves_node hcall n hs hscope).ending hs hscope hnone
    rw [topLevel, Keeps, EndsIn]
    generalize hnode : node call scope n s = result at hending
    -- A node has failed, gone on or returned; only the second goes on to the next node.
    cases hending with
    | @failed e s' hkeeps _ =>
      rw [bind_error hnode]
      exact hkeeps
    | @normal value s' hkeeps hnone' =>
      rw [bind_ok hnode, bind_ok (takeReturn_of_none hnone')]
      have hscope' := hkeeps.grows.hasScope hscope
      have hrest := keeps_topLevel hcall rest value hkeeps.wellFormed hscope' hnone'
      dsimp only
      cases hresult : topLevel call scope value rest s' with
      | ok v s'' => exact hkeeps.trans (hrest.of_ok hresult)
      | error e s'' => exact hkeeps.trans (hrest.of_error hresult)
    | @returned value s' hkeeps hnone' =>
      have hscope' := hkeeps.grows.hasScope hscope
      rw [bind_ok hnode, bind_ok (takeReturn_setReturn hkeeps.wellFormed hscope' hnone' value)]
      exact hkeeps

end Eval

namespace Session

open Eval

/-! ### Requests -/

/-- What a host asks for: the next node of a text that has been read up to some place, or a whole
program. -/
inductive Request where
  | next (parser : ParserState)
  | program (p : Program)

/-- The store after a request, whether it succeeds or fails. -/
def serve (root : Ref .scope) (store : Store) : Request → Store
  | .next parser => (Session.next ⟨root, parser, store⟩).2.store
  | .program p => storeAfter (Eval.program root p store)

/-- The root that all requests are evaluated in. -/
def sharedRoot : Ref .scope :=
  Store.empty.addRoot.1

/-- The store after a sequence of requests, beginning with a root alone. -/
def history (requests : List Request) : Store :=
  requests.foldl (serve sharedRoot) Store.empty.addRoot.2

variable {root : Ref .scope} {store : Store}

/-- Dropping what a node leaves brings the store to rest again. -/
theorem keepsReturns_next (hs : store.AtRest) (hroot : store.HasScope root) (parser : ParserState) :
    store.KeepsReturns (Session.next ⟨root, parser, store⟩).2.store := by
  have hkeeps := Store.KeepsReturns.refl hs.wellFormed
  cases hnext : Parse.nextNode maxNesting parser with
  | error error parser' =>
    simp only [Session.next, hnext]
    exact hkeeps
  | ok found parser' =>
    cases found with
    | none =>
      simp only [Session.next, hnext]
      exact hkeeps
    | some n =>
      have hnone := Store.pendingReturn?_eq_none hs.quiet root
      have hleaves := leaves_node (keeps_callWithin maxCalls) n hs.wellFormed hroot
      have hending := hleaves.ending hs.wellFormed hroot hnone
      simp only [Session.next, hnext]
      generalize node (callWithin maxCalls) root n store = result at hending ⊢
      -- In every case the scope of the session has nothing pending after it is cleared.
      cases hending with
      | failed hkeeps hnone' =>
        dsimp only
        rw [Store.clearReturn_eq_self hnone']
        exact hkeeps
      | normal hkeeps hnone' =>
        dsimp only
        rw [Store.clearReturn_eq_self hnone']
        exact hkeeps
      | returned hkeeps hnone' =>
        dsimp only
        rw [Store.clearReturn_setReturn_of_none hkeeps.wellFormed (hkeeps.grows.hasScope hroot)
          hnone']
        exact hkeeps

/-- A request keeps all returns, that is none, in a store at rest. -/
theorem keepsReturns_serve (hs : store.AtRest) (hroot : store.HasScope root) (request : Request) :
    store.KeepsReturns (serve root store request) := by
  cases request with
  | next parser => exact keepsReturns_next hs hroot parser
  | program p =>
    have hnone := Store.pendingReturn?_eq_none hs.quiet root
    exact (keeps_topLevel (keeps_callWithin maxCalls) p.nodes .null hs.wellFormed hroot
      hnone).storeAfter

theorem atRest_serve (hs : store.AtRest) (hroot : store.HasScope root) (request : Request) :
    (serve root store request).AtRest ∧ (serve root store request).HasScope root := by
  have hkeeps := keepsReturns_serve hs hroot request
  exact ⟨hkeeps.atRest hs, hkeeps.grows.hasScope hroot⟩

/-- A history leaves a store at rest, by induction on the requests. -/
theorem atRest_history (requests : List Request) :
    (history requests).AtRest ∧ (history requests).HasScope sharedRoot := by
  have hstart : Store.empty.addRoot.2.AtRest ∧ Store.empty.addRoot.2.HasScope sharedRoot :=
    ⟨(Store.settles_addScope Store.atRest_empty .root (by rintro p ⟨⟩)).atRest,
      Store.hasScope_addScope .root none⟩
  unfold history
  generalize Store.empty.addRoot.2 = store at hstart ⊢
  induction requests generalizing store with
  | nil => exact hstart
  | cons request requests ih => exact ih _ (atRest_serve hstart.1 hstart.2 request)

/-! ### Between requests, and while one is served -/

/-- **No return is left pending, nor observed late.** After any requests nothing is pending in any
scope; and whatever node or program is evaluated next, on the way to its result nothing is evaluated
in a scope for which a return is pending. -/
theorem no_return_left_pending (requests : List Request) :
    (history requests).Quiet ∧
      (∀ n, (Machine.ofNode sharedRoot n (history requests) 0).EndsWith
          (node (callWithin maxCalls) sharedRoot n (history requests)) ∧
        (Machine.ofNode sharedRoot n (history requests) 0).StartsQuietly) ∧
      ∀ p, (Machine.ofProgram sharedRoot p (history requests) 0).EndsWith
          (Eval.program sharedRoot p (history requests)) ∧
        (Machine.ofProgram sharedRoot p (history requests) 0).StartsQuietly := by
  obtain ⟨hs, hroot⟩ := atRest_history requests
  obtain ⟨hnodes, hprograms⟩ :=
    Machine.endsWith_callWithin (history requests) sharedRoot (Nat.zero_le maxCalls)
  exact ⟨hs.quiet,
    fun n => ⟨hnodes n, (Machine.orderly_ofNode hs hroot n 0).startsQuietly⟩,
    fun p => ⟨hprograms p, (Machine.orderly_ofProgram hs hroot p 0).startsQuietly⟩⟩

end Session

end Script
