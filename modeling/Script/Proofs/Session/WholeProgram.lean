import Script.Proofs.Eval.Returns
import Script.Proofs.Parser.Soundness
import Script.Session

/-!
# A session and the whole program

A text can be evaluated at once, as a program, or node by node, in a session. The two read it the
same way, but a program stops at an error or at a return, while a session turns the error into a
value, drops the return, and goes on. Up to where the program stops both do the same:

* `Session.shows_programWithin`: the nodes that are left of a text;
* `Session.shows_program`: a whole text.
-/

namespace Script

namespace Eval

/-! ### How a program stops -/

/-- How a program stops: after its last node, or in the node at a position, by an error or by a
return. -/
inductive Stop where
  | finished (value : Value)
  | failed (position : Nat) (error : RuntimeError)
  | returned (position : Nat) (value : Value)

namespace Stop

/-- The same, with one more node in front. -/
def later : Stop → Stop
  | finished value => finished value
  | failed position error => failed (position + 1) error
  | returned position value => returned (position + 1) value

/-- What a program that stops so comes to. -/
def result : Stop → Store → EStateM.Result RuntimeError Store Value
  | finished value, store => .ok value store
  | failed _ error, store => .error error store
  | returned _ value, store => .ok value store

end Stop

/-- The nodes of a program run one after another up to where they stop: what was the last value
before them, the store at first, and the store at the end. -/
inductive Runs (scope : Ref .scope) : Value → List Node → Store → Stop → Store → Prop
  | finished {last s} : Runs scope last [] s (.finished last) s
  | failed {last n rest s error s'}
      (hnode : node (callWithin maxCalls) scope n s = .error error s') :
    Runs scope last (n :: rest) s (.failed 0 error) s'
  | returned {last n rest s value s₁ returned s'}
    (hnode : node (callWithin maxCalls) scope n s = .ok value s₁)
    (htake : takeReturn scope s₁ = .ok (some returned) s') :
    Runs scope last (n :: rest) s (.returned 0 returned) s'
  | next {last n rest s value s₁ s₂ stop s'}
    (hnode : node (callWithin maxCalls) scope n s = .ok value s₁)
    (htake : takeReturn scope s₁ = .ok none s₂) (hrest : Runs scope value rest s₂ stop s') :
    Runs scope last (n :: rest) s stop.later s'

/-- A program comes to what it stops with. -/
theorem Runs.topLevel_eq {scope : Ref .scope} {last : Value} {ns : List Node} {s s' : Store}
    {stop : Stop} (h : Runs scope last ns s stop s') :
    topLevel (callWithin maxCalls) scope last ns s = stop.result s' := by
  induction h with
  | finished => rfl
  | failed hnode => rw [topLevel, bind_error hnode]; rfl
  | returned hnode htake => rw [topLevel, bind_ok hnode, bind_ok htake]; rfl
  | @next _ _ _ _ _ _ _ stop _ hnode htake _ ih =>
    rw [topLevel, bind_ok hnode, bind_ok htake]
    refine ih.trans ?_
    cases stop <;> rfl

end Eval

namespace Session

open Eval Parse

/-! ### What a session shows -/

/-- What a session shows when it is asked for the next node until there is none: each value with
the store right after it, and the session at the end. -/
inductive Shows : Session → List (Value × Store) → Session → Prop
  | done {session final} (hnext : session.next = (.ok none, final)) : Shows session [] final
  | more {session value after shown final} (hnext : session.next = (.ok (some value), after))
    (hrest : Shows after shown final) : Shows session ((value, after.store) :: shown) final

/-- What a session shows agrees with how the program stops. A program that finishes has the last
value that was shown, and leaves the store that the session leaves. Where it fails, the session
shows the error as a value; where it returns, the session shows null; and both times the store right
after that is the one that the program leaves. After a return nothing is pending. -/
def Agrees (scope : Ref .scope) (before : Store) (last : Value) (shown : List (Value × Store))
    (final : Session) (after : Store) : Stop → Prop
  | .finished value => value = (shown.getLast?.map Prod.fst).getD last ∧ after = final.store
  | .failed position error => shown[position]? = some (.error error.cause.message, after)
  | .returned position _ => shown[position]? = some (.null, after) ∧
      after.pendingReturn? scope = none ∧ (before.Quiet → after.Quiet)

variable {scope : Ref .scope} {parser parser' : ParserState} {s s' : Store}

theorem next_of_node (scope : Ref .scope) (s : Store) {n : Node}
    (h : nextNode maxNesting parser = .ok (some n) parser') :
    next ⟨scope, parser, s⟩ =
      match node (callWithin maxCalls) scope n s with
      | .ok value store => (.ok (some value), ⟨scope, parser', store.clearReturn scope⟩)
      | .error error store =>
        (.ok (some error.toValue), ⟨scope, parser', store.clearReturn scope⟩) := by
  cases hnode : node (callWithin maxCalls) scope n s <;> simp only [next, h, hnode]

theorem Agrees.later {before : Store} {last value : Value} {store : Store}
    {shown : List (Value × Store)} {final : Session} {after : Store} {stop : Stop}
    (hkeeps : s.KeepsReturns before) (h : Agrees scope before value shown final after stop) :
    Agrees scope s last ((value, store) :: shown) final after stop.later := by
  cases stop with
  | finished result =>
    obtain ⟨rfl, rfl⟩ := h
    refine ⟨?_, rfl⟩
    rw [List.getLast?_cons]
    cases shown.getLast? <;> rfl
  | failed position error => exact h
  | returned position returned => exact ⟨h.1, h.2.1, fun hquiet => h.2.2 (hkeeps.quiet hquiet)⟩

/-- **The nodes that are left of a text** are shown by a session and run by a program, and the two
agree. -/
theorem shows_programWithin : ∀ (n : Nat) {parser parser' : ParserState} {ns : List Node}
    {s : Store} (last : Value), parser.lexemes.length < n →
    programWithin maxNesting n parser = .ok ns parser' → s.WellFormed → s.HasScope scope →
    s.pendingReturn? scope = none →
    ∃ shown final stop after, Shows ⟨scope, parser, s⟩ shown final ∧ shown.length = ns.length ∧
      Runs scope last ns s stop after ∧ Agrees scope s last shown final after stop
  | 0, parser, parser', ns, s, last, hn, _, _, _, _ => by omega
  | n + 1, parser, parser', ns, s, last, hn, h, hs, hscope, hnone => by
    rw [programWithin] at h
    obtain ⟨next, parser₁, hnext, h⟩ := bind_eq_ok_iff.1 h
    cases next with
    | none =>
      cases h
      refine ⟨[], ⟨scope, parser', s⟩, _, s, .done ?_, rfl, .finished, rfl, rfl⟩
      simp only [Session.next, hnext]
    | some x =>
      obtain ⟨xs, parser₂, hxs, h⟩ := bind_eq_ok_iff.1 h
      cases h
      have hlength := length_lt_of_nextNode hnext
      -- the session goes on whatever the node comes to, for nothing is left pending
      have hrest : ∀ {s' : Store} (last : Value), s.KeepsReturns s' →
          s'.pendingReturn? scope = none → ∃ shown final stop after,
            Shows ⟨scope, parser₁, s'⟩ shown final ∧ shown.length = xs.length ∧
            Runs scope last xs s' stop after ∧ Agrees scope s' last shown final after stop :=
        fun last hkeeps hnone' => shows_programWithin n last (by omega) hxs hkeeps.wellFormed
          (hkeeps.grows.hasScope hscope) hnone'
      have hstep := next_of_node scope s hnext
      have hending := (leaves_node (keeps_callWithin maxCalls) x hs hscope).ending hs hscope hnone
      generalize hnode : node (callWithin maxCalls) scope x s = result at hstep hending
      cases hending with
      | @failed error s' hkeeps hnone' =>
        dsimp only at hstep
        rw [Store.clearReturn_eq_self hnone'] at hstep
        obtain ⟨shown, final, -, -, hshows, hlen, -, -⟩ := hrest .null hkeeps hnone'
        exact ⟨_, final, _, s', .more hstep hshows, congrArg (· + 1) hlen, .failed hnode, rfl⟩
      | @normal value s' hkeeps hnone' =>
        dsimp only at hstep
        rw [Store.clearReturn_eq_self hnone'] at hstep
        obtain ⟨shown, final, stop, after, hshows, hlen, hruns, hagrees⟩ :=
          hrest value hkeeps hnone'
        exact ⟨_, final, _, after, .more hstep hshows, congrArg (· + 1) hlen,
          .next hnode (takeReturn_of_none hnone') hruns, hagrees.later hkeeps⟩
      | @returned value s' hkeeps hnone' =>
        have hscope' := hkeeps.grows.hasScope hscope
        dsimp only at hstep
        rw [Store.clearReturn_setReturn_of_none hkeeps.wellFormed hscope' hnone'] at hstep
        obtain ⟨shown, final, -, -, hshows, hlen, -, -⟩ := hrest .null hkeeps hnone'
        exact ⟨_, final, _, s', .more hstep hshows, congrArg (· + 1) hlen,
          .returned hnode (takeReturn_setReturn hkeeps.wellFormed hscope' hnone' value),
          rfl, hnone', hkeeps.quiet⟩

/-- The nodes of a program are those that are read one after another. -/
theorem programWithin_of_parse {text : String} {p : Program} (h : Program.parse text = .ok p) :
    ∃ parser', programWithin maxNesting ((LexemeStream.ofText text).lexemes.length + 1)
      (.ofStream (.ofText text)) = .ok p.nodes parser' := by
  rw [Program.parse] at h
  cases hresult : Program.ofStream maxNesting (.ofText text) with
  | error error state =>
    rw [hresult] at h
    cases h
  | ok program state =>
    rw [hresult] at h
    obtain rfl := Except.ok.inj h
    rw [Program.ofStream, Parse.program, get_bind] at hresult
    obtain ⟨_, _, hget, hresult⟩ := bind_eq_ok_iff.1 hresult
    cases hget
    obtain ⟨nodes, parser', hnodes, hresult⟩ := bind_eq_ok_iff.1 hresult
    cases hresult
    exact ⟨_, hnodes⟩

/-- **A session agrees with the whole program.** Of a text that is a program a session shows as many
values as there are nodes, and they agree with how the program stops when it runs on the same
store. -/
theorem shows_program {text : String} {p : Program} (hparse : Program.parse text = .ok p)
    {store : Store} (hs : store.WellFormed) (hscope : store.HasScope scope)
    (hnone : store.pendingReturn? scope = none) :
    ∃ shown final stop after,
      (ofText scope store text).Shows shown final ∧ shown.length = p.nodes.length ∧
      Runs scope .null p.nodes store stop after ∧
      Eval.program scope p store = stop.result after ∧
      Agrees scope store .null shown final after stop := by
  obtain ⟨parser', hnodes⟩ := programWithin_of_parse hparse
  obtain ⟨shown, final, stop, after, hshows, hlength, hruns, hagrees⟩ :=
    shows_programWithin _ .null (Nat.lt_succ_self _) hnodes hs hscope hnone
  exact ⟨shown, final, stop, after, hshows, hlength, hruns, hruns.topLevel_eq, hagrees⟩

/-- A top-level return of what a call gives, with a node after it that fails:
`let f = fn(x) { return x; }; return f(2); y`. -/
theorem shows_program_returned :
    let root := Store.empty.addRoot
    let text := "let f = fn(x) \x7b return x; \x7d; return f(2); y"
    ∃ p, Program.parse text = .ok p ∧ root.2.WellFormed ∧ root.2.HasScope root.1 ∧
      root.2.pendingReturn? root.1 = none ∧ ∃ shown final stop after,
        (ofText root.1 root.2 text).Shows shown final ∧ shown.length = p.nodes.length ∧
        Runs root.1 .null p.nodes root.2 stop after ∧
        Eval.program root.1 p root.2 = stop.result after ∧
        Agrees root.1 root.2 .null shown final after stop := by
  intro root text
  have hparse : (Program.parse text).toOption.isSome = true := by decide +kernel
  have hs : root.2.WellFormed :=
    Store.wellFormed_addScope Store.wellFormed_empty .root (by rintro p ⟨⟩)
  have hscope : root.2.HasScope root.1 := Store.hasScope_addScope .root none
  cases h : Program.parse text with
  | error error =>
    rw [h] at hparse
    cases hparse
  | ok p => exact ⟨p, rfl, hs, hscope, rfl, shows_program h hs hscope rfl⟩

end Session

end Script
