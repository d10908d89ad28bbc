import Script.Proofs.Machine.Calls
import Script.Proofs.Session.Containers

/-!
# Calls over a session

The count of active calls is kept from one input of a session to the next, so an input that leaves
it too high would take calls away from all later ones. None does, however it ends: the count goes
down again for every body that an error leaves. So at any time of a session it is the number of the
bodies entered less that of the bodies left, between two nodes it is zero, and every node and every
program has all calls before it.

* `Session.Phase.Step`: what happens next in a session that keeps the count;
* `Session.Run`: a session up to a phase, with the bodies that it has entered and left;
* `Session.accounted_of_run`: what holds at each phase, from step to step;
* `Session.calls_counted_exactly`: the count, and when a call is one too many.
-/

namespace Script

namespace Session

open Eval

/-! ### Phases of a session -/

/-- A phase of a session: between two inputs, with the store and the count of active calls that
they have left, or on the way through a node or a program. -/
inductive Phase where
  | idle (store : Store) (active : Nat)
  | node (m : Machine)
  | program (m : Machine)

namespace Phase

/-- The count of active calls. -/
def active : Phase → Nat
  | idle _ active => active
  | node m => m.active
  | program m => m.active

/-- What waits for a value. -/
def frames : Phase → List Frame
  | idle _ _ => []
  | node m => m.frames
  | program m => m.frames

/-- The machine that is at work, if an input is being evaluated. -/
def machine? : Phase → Option Machine
  | idle _ _ => none
  | node m => some m
  | program m => some m

/-- Nothing is being evaluated: an input is awaited, or the next node of a program. -/
def BetweenNodes : Phase → Prop
  | idle _ _ => True
  | node _ => False
  | program m => m.task.isProgram = true

/-- **What happens next.** A machine takes over the count as the inputs before have left it, and
leaves it behind with its store. -/
inductive Step (root : Ref .scope) : Phase → Phase → Prop
  | beginNode (store : Store) (active : Nat) (n : Node) :
      Step root (.idle store active) (.node (.ofNode root n store active))
  | beginProgram (store : Store) (active : Nat) (p : Program) :
      Step root (.idle store active) (.program (.ofProgram root p store active))
  | stepNode {m m' : Machine} (h : m.step = some m') : Step root (.node m) (.node m')
  | stepProgram {m m' : Machine} (h : m.step = some m') : Step root (.program m) (.program m')
  | endNode {m : Machine} (h : m.step = none) :
      Step root (.node m) (.idle (m.store.clearReturn root) m.active)
  | endProgram {m : Machine} (h : m.step = none) :
      Step root (.program m) (.idle m.store m.active)

/-- A body is entered between two phases. -/
def Enters (x y : Phase) : Prop :=
  ∃ m m', x.machine? = some m ∧ y.machine? = some m' ∧ m.Enters m'

/-- A body is left between two phases. -/
def Leaves (x y : Phase) : Prop :=
  ∃ m m', x.machine? = some m ∧ y.machine? = some m' ∧ m.Leaves m'

end Phase

open Phase

/-- **A session up to a phase**, with the numbers of the bodies that have been entered and left. -/
inductive Run (root : Ref .scope) (start : Phase) : Nat → Nat → Phase → Prop
  | start : Run root start 0 0 start
  | enters {entered left : Nat} {x y : Phase} (h : Run root start entered left x)
      (hstep : Step root x y) (henters : x.Enters y) : Run root start (entered + 1) left y
  | leaves {entered left : Nat} {x y : Phase} (h : Run root start entered left x)
      (hstep : Step root x y) (hleaves : x.Leaves y) : Run root start entered (left + 1) y
  | other {entered left : Nat} {x y : Phase} (h : Run root start entered left x)
      (hstep : Step root x y) (henters : ¬ x.Enters y) (hleaves : ¬ x.Leaves y) :
      Run root start entered left y

variable {root : Ref .scope} {x y : Phase} {entered left : Nat}

/-! ### What a step does to the count -/

theorem active_of_machine? {m : Machine} (h : x.machine? = some m) : x.active = m.active := by
  cases x <;> cases h <;> rfl

theorem step_of_machine? {m m' : Machine} (h : Step root x y) (hm : x.machine? = some m)
    (hm' : y.machine? = some m') : m.step = some m' := by
  cases h <;> cases hm <;> cases hm' <;> assumption

/-- The machine at work counts right, and with none at work nothing is counted. -/
structure Phase.Counted (x : Phase) : Prop where
  machine : ∀ m, x.machine? = some m → m.Counted ∧ m.OneProgram
  idle : x.machine? = none → x.active = 0

theorem Phase.Counted.step (hx : x.Counted) (h : Step root x y) : y.Counted := by
  have hat {m : Machine} (hm : m.Counted) (hone : m.OneProgram) :
      (Phase.node m).Counted ∧ (Phase.program m).Counted :=
    ⟨⟨by rintro _ ⟨⟩; exact ⟨hm, hone⟩, by rintro ⟨⟩⟩,
      ⟨by rintro _ ⟨⟩; exact ⟨hm, hone⟩, by rintro ⟨⟩⟩⟩
  cases h with
  | beginNode store active n =>
    have hzero : active = 0 := hx.idle rfl
    exact (hat (Machine.counted_of_frames_nil rfl hzero) (Machine.oneProgram_of_frames_nil rfl)).1
  | beginProgram store active p =>
    have hzero : active = 0 := hx.idle rfl
    exact (hat (Machine.counted_of_frames_nil rfl hzero) (Machine.oneProgram_of_frames_nil rfl)).2
  | @stepNode m m' h =>
    obtain ⟨hm, hone⟩ := hx.machine m rfl
    exact (hat (hm.step h) (hone.step h)).1
  | @stepProgram m m' h =>
    obtain ⟨hm, hone⟩ := hx.machine m rfl
    exact (hat (hm.step h) (hone.step h)).2
  | @endNode m h | @endProgram m h =>
    exact ⟨by rintro _ ⟨⟩, fun _ => (hx.machine m rfl).1.active_of_step_eq_none h⟩

theorem active_of_phase_enters (h : Step root x y) (henters : x.Enters y) :
    y.active = x.active + 1 := by
  obtain ⟨m, m', hm, hm', henters⟩ := henters
  rw [active_of_machine? hm, active_of_machine? hm']
  exact Machine.active_of_enters (step_of_machine? h hm hm') henters

theorem active_of_phase_leaves (hx : x.Counted) (h : Step root x y) (hleaves : x.Leaves y) :
    y.active + 1 = x.active := by
  obtain ⟨m, m', hm, hm', hleaves⟩ := hleaves
  rw [active_of_machine? hm, active_of_machine? hm']
  exact Machine.active_of_leaves (hx.machine m hm).1 (step_of_machine? h hm hm') hleaves

theorem active_of_phase_neither (h : Step root x y) (henters : ¬ x.Enters y)
    (hleaves : ¬ x.Leaves y) : y.active = x.active := by
  cases h with
  | @stepNode m m' hstep | @stepProgram m m' hstep =>
    exact Machine.active_of_neither hstep (fun h => henters ⟨m, m', rfl, rfl, h⟩)
      (fun h => hleaves ⟨m, m', rfl, rfl, h⟩)
  | _ => rfl

/-! ### What holds at each phase -/

/-- The count is the number of the bodies that have been entered and not left. -/
structure Phase.Accounted (entered left : Nat) (x : Phase) : Prop where
  counted : x.Counted
  balance : x.active + left = entered

/-- **Every phase of a session is accounted for**, by induction on its steps. -/
theorem accounted_of_run {store : Store} (h : Run root (.idle store 0) entered left x) :
    x.Accounted entered left := by
  induction h with
  | start => exact ⟨⟨by rintro m ⟨⟩, fun _ => rfl⟩, rfl⟩
  | enters _ hstep henters ih =>
    have hactive := active_of_phase_enters hstep henters
    have hbalance := ih.balance
    exact ⟨ih.counted.step hstep, by omega⟩
  | leaves _ hstep hleaves ih =>
    have hactive := active_of_phase_leaves ih.counted hstep hleaves
    have hbalance := ih.balance
    exact ⟨ih.counted.step hstep, by omega⟩
  | other _ hstep henters hleaves ih =>
    have hactive := active_of_phase_neither hstep henters hleaves
    have hbalance := ih.balance
    exact ⟨ih.counted.step hstep, by omega⟩

theorem Phase.Counted.active_eq (hx : x.Counted) : x.active = Frame.bodies x.frames := by
  cases x with
  | idle store active => exact hx.idle rfl
  | node m | program m => exact (hx.machine m rfl).1.active_eq

theorem Phase.Counted.le_max (hx : x.Counted) : x.active ≤ maxCalls := by
  cases x with
  | idle store active =>
    have hzero : active = 0 := hx.idle rfl
    exact hzero ▸ Nat.zero_le _
  | node m | program m => exact (hx.machine m rfl).1.le_max

/-- Between two nodes nothing is active. -/
theorem Phase.Counted.active_of_betweenNodes (hx : x.Counted) (h : x.BetweenNodes) :
    x.active = 0 := by
  cases x with
  | idle store active => exact hx.idle rfl
  | node m => exact h.elim
  | program m =>
    obtain ⟨hm, hone⟩ := hx.machine m rfl
    show m.active = 0
    rw [hm.active_eq, hone.task h]
    rfl

/-! ### Sessions of requests -/

/-- The phase at a moment of a session that does not keep the count. -/
def Moment.phase : Moment → Phase
  | .between store => .idle store 0
  | .node m => .node m
  | .program m => .program m

theorem exists_run_of_step {start : Phase} (h : Run root start entered left x)
    (hstep : Phase.Step root x y) : ∃ entered' left', Run root start entered' left' y := by
  by_cases henters : x.Enters y
  · exact ⟨_, _, h.enters hstep henters⟩
  · by_cases hleaves : x.Leaves y
    · exact ⟨_, _, h.leaves hstep hleaves⟩
    · exact ⟨_, _, h.other hstep henters hleaves⟩

/-- Starting each input from zero makes no difference, as the one before has ended there. -/
theorem phase_step {a b : Moment} (ha : a.phase.Counted) (h : Moment.Step root a b) :
    Phase.Step root a.phase b.phase := by
  cases h with
  | beginNode store n => exact .beginNode store 0 n
  | beginProgram store p => exact .beginProgram store 0 p
  | stepNode h => exact .stepNode h
  | stepProgram h => exact .stepProgram h
  | @endNode m h =>
    have hend : Phase.Step root (.node m) (.idle _ m.active) := .endNode h
    rw [(ha.machine m rfl).1.active_of_step_eq_none h] at hend
    exact hend
  | @endProgram m h =>
    have hend : Phase.Step root (.program m) (.idle _ m.active) := .endProgram h
    rw [(ha.machine m rfl).1.active_of_step_eq_none h] at hend
    exact hend

theorem exists_run_of_later {store : Store} {b : Moment}
    (h : Moment.Later root (.between store) b) :
    ∃ entered left, Run root (.idle store 0) entered left b.phase := by
  induction h with
  | refl => exact ⟨0, 0, .start⟩
  | tail _ hstep ih =>
    obtain ⟨entered, left, hrun⟩ := ih
    exact exists_run_of_step hrun (phase_step (accounted_of_run hrun).counted hstep)

/-- The start of a session: the root alone, and no call active. -/
def Phase.start : Phase :=
  .idle Store.empty.addRoot.2 0

/-- Requests lead to phases in which the store is theirs and no call is active. -/
theorem exists_run_history (requests : List Request) :
    ∃ entered left, Run sharedRoot Phase.start entered left (.idle (history requests) 0) :=
  exists_run_of_later (reachable_history requests)

/-! ### The count over a session -/

/-- **Calls are counted exactly.** At any phase of a session, whatever inputs it has had and however
they have ended, the count of active calls is the number of the bodies that have been entered less
that of the bodies that have been left; it is the number of bodies that are being evaluated, never
more than the limit, and zero between two nodes. A call with the right number of arguments enters
its body as long as the count is below the limit, and is refused if it is not. So the evaluation of
a node or a program, in any store that a session has come to, fails for too many calls exactly if it
comes to a call that is one too many. -/
theorem calls_counted_exactly :
    (∀ entered left x, Run sharedRoot Phase.start entered left x →
      x.active + left = entered ∧ x.active = Frame.bodies x.frames ∧ x.active ≤ maxCalls ∧
        (x.BetweenNodes → x.active = 0)) ∧
    (∀ entered left x m closure span, Run sharedRoot Phase.start entered left x →
      x.machine? = some m → m.Calls closure span →
        (x.active < maxCalls → ∃ m', m.step = some m' ∧ m.Enters m') ∧
        (x.active = maxCalls →
          m.step = some ⟨.fail ⟨.callDepthExceeded, span⟩, m.frames, m.store, m.active⟩)) ∧
    (∀ entered left store active, Run sharedRoot Phase.start entered left (.idle store active) →
      ∀ span after,
        (∀ n, (Machine.ofNode sharedRoot n store active).EndsWith
            (node (callWithin maxCalls) sharedRoot n store) ∧
          (node (callWithin maxCalls) sharedRoot n store =
            .error ⟨.callDepthExceeded, span⟩ after ↔
              (Machine.ofNode sharedRoot n store active).Exceeds span after)) ∧
        ∀ p, (Machine.ofProgram sharedRoot p store active).EndsWith
            (Eval.program sharedRoot p store) ∧
          (Eval.program sharedRoot p store = .error ⟨.callDepthExceeded, span⟩ after ↔
            (Machine.ofProgram sharedRoot p store active).Exceeds span after)) ∧
    ∀ requests, ∃ entered left,
      Run sharedRoot Phase.start entered left (.idle (history requests) 0) := by
  refine ⟨fun entered left x h => ?_, fun entered left x m closure span h hm hcall => ?_,
    fun entered left store active h span after => ?_, exists_run_history⟩
  · have hx := accounted_of_run h
    exact ⟨hx.balance, hx.counted.active_eq, hx.counted.le_max, hx.counted.active_of_betweenNodes⟩
  · rw [active_of_machine? hm]
    exact ⟨Machine.step_of_calls_of_lt hcall,
      fun hfull => Machine.step_of_calls_of_le hcall (Nat.le_of_eq hfull.symm)⟩
  · -- every input finds the count at zero
    obtain rfl : active = 0 := (accounted_of_run h).counted.idle rfl
    obtain ⟨hnodes, hprograms⟩ :=
      Machine.endsWith_callWithin store sharedRoot (Nat.zero_le maxCalls)
    refine ⟨fun n => ⟨hnodes n, ?_⟩, fun p => ⟨hprograms p, ?_⟩⟩
    · exact Machine.exceeds_iff (Machine.counted_of_frames_nil rfl rfl) (by rintro error ⟨⟩)
        (hnodes n)
    · exact Machine.exceeds_iff (Machine.counted_of_frames_nil rfl rfl) (by rintro error ⟨⟩)
        (hprograms p)

/-- After an input that has failed in the body of a function, `fn() { x }()`, the same call is made
again: as many bodies have been left as entered, and the call enters another. -/
theorem calls_counted_exactly_afterFailure :
    let at0 : Span := .point 0
    let body : Block := ⟨[.expression (.name ⟨"x", at0⟩)], at0⟩
    let call : Node := .expression (.call (.function [] body at0) [] at0)
    let program : Program := ⟨[call], 0, 0⟩
    (match Eval.program sharedRoot program Store.empty.addRoot.2 with
      | .error error _ => some error
      | .ok _ _ => none) = some ⟨.unboundName "x", at0⟩ ∧
    ∃ entered m, Run sharedRoot Phase.start entered entered (.node m) ∧
      m.Calls ⟨[], body, sharedRoot⟩ at0 ∧ ∃ m', m.step = some m' ∧ m.Enters m' := by
  intro at0 body call program
  refine ⟨by decide +kernel, ?_⟩
  let store := history [.program program]
  let made := store.addClosure ⟨[], body, sharedRoot⟩
  let m : Machine := ⟨.call made.1 [] at0 at0, [], made.2, 0⟩
  -- The function is made, and no argument is evaluated; then the call is due.
  have hsteps : (Machine.ofNode sharedRoot call store 0).Steps m :=
    .first rfl (.first rfl (.first rfl (.first rfl (.first rfl .refl))))
  have hlater : Moment.Later sharedRoot (.between store) (.node m) :=
    (later_node hsteps).head (.beginNode store call)
  obtain ⟨entered, left, hrun⟩ :=
    exists_run_of_later ((reachable_history [.program program]).trans hlater)
  have hcall : m.Calls ⟨[], body, sharedRoot⟩ at0 :=
    ⟨store.closures.fresh, [], at0, rfl, Heap.get?_alloc_fresh _ _, rfl⟩
  obtain ⟨hcount, henter, -, -⟩ := calls_counted_exactly
  have hbalance : 0 + left = entered := (hcount entered left _ hrun).1
  have hnext := (henter entered left _ m _ at0 hrun rfl hcall).1 (by decide : 0 < maxCalls)
  obtain rfl : left = entered := by omega
  exact ⟨left, m, hrun, hcall, hnext⟩

end Session

end Script
