import Script.Proofs.Machine
import Script.Proofs.Sequence
import Mathlib.Logic.Relation

/-!
# What a machine comes to

A machine that begins a piece of a tree comes to what the evaluation of that piece gives, with its
frames and its count of active calls as they were, and it comes there in finitely many steps. The
steps of a piece are put together from those of its parts: a part runs on the frame that waits for
it, which then goes on with its value (`Steps.handed`, `Steps.andThen`).

* `steps_expression`, `steps_node`, `steps_nodes`: trees, if calls do the same;
* `performs_callWithin`: calls, by induction on how many may still become active;
* `endsWith_callWithin`: nodes and programs come to their results, and no run goes on for ever.
-/

namespace Script

namespace Machine

open Eval

/-! ### Runs -/

/-- Finitely many steps from one machine to another. -/
abbrev Steps : Machine → Machine → Prop :=
  Relation.ReflTransGen fun m m' => m.step = some m'

variable {α β : Type} {m : Machine} {task : Task} {frames : List Frame} {active : Nat} {s : Store}

theorem Steps.first {m' m'' : Machine} (h : m.step = some m') (h' : Steps m' m'') : Steps m m'' :=
  .head h h'

/-- **The frame that waits for a value goes on with it**; an error drops the frame. -/
theorem Steps.handed {frame : Frame} {x : Eval Value} (hframe : frame.calls = 0)
    (h : Steps ⟨task, frame :: frames, s, active⟩ (answer (frame :: frames) active (x s))) :
    Steps ⟨task, frame :: frames, s, active⟩
      (proceed frames active (resume frames active frame) (x s)) := by
  refine h.trans (.single ?_)
  cases x s with
  | ok value s' => rfl
  | error error s' =>
    show some (Machine.mk (.fail error) frames s' (active - frame.calls)) = _
    rw [hframe]
    rfl

/-- **What comes next goes on where the first evaluation has left off.** -/
theorem Steps.andThen {x : Eval α} {f : α → Eval β} {next : α → Store → Machine}
    {next' : β → Store → Machine} (h : Steps m (proceed frames active next (x s)))
    (hf : ∀ a s', x s = .ok a s' → Steps (next a s') (proceed frames active next' (f a s'))) :
    Steps m (proceed frames active next' ((x >>= f) s)) := by
  cases hx : x s with
  | ok a s' =>
    rw [bind_ok hx]
    rw [hx] at h
    exact h.trans (hf a s' hx)
  | error error s' =>
    rw [bind_error hx]
    rw [hx] at h
    exact h

/-! ### Trees -/

/-- Machines perform calls of a caller: a call comes to what the caller says. -/
def Performs (call : Caller) (active : Nat) : Prop :=
  ∀ ref arguments span callee frames s,
    Steps ⟨.call (.function ref) arguments span callee, frames, s, active⟩
      (answer frames active (call ref arguments span s))

section Trees

variable {call : Caller} {scope : Ref .scope}

theorem steps_call (hcall : Performs call active) (function : Value) (arguments : List Value)
    (span callee : Span) (frames : List Frame) (s : Store) :
    Steps ⟨.call function arguments span callee, frames, s, active⟩
      (answer frames active (callValue call function arguments span callee s)) := by
  cases function with
  | function ref => exact hcall ref arguments span callee frames s
  | _ => exact .single rfl

mutual

/-- **An expression comes to its value** or its error. -/
theorem steps_expression (hcall : Performs call active) :
    ∀ (e : Expr) (frames : List Frame) (s : Store), Steps ⟨.expression scope e, frames, s, active⟩
      (answer frames active (expression call scope e s))
  | .name ident, frames, s => .single rfl
  | .integer value _, frames, s => .single rfl
  | .boolean value _, frames, s => .single rfl
  | .string value _, frames, s => .single rfl
  | .array elements _, frames, s => by
    rw [expression]
    refine .first rfl
      ((steps_items hcall .array [] elements frames s).andThen fun values s' _ => ?_)
    exact .refl
  | .map entries _, frames, s => by
    rw [expression]
    refine .first rfl ((steps_pairs hcall ∅ entries frames s).andThen fun table s' _ => ?_)
    exact .single rfl
  | .unary op operand span, frames, s => by
    rw [expression]
    refine .first rfl
      ((steps_expression hcall operand _ s).handed rfl |>.andThen fun value s' _ => ?_)
    exact .refl
  | .binary op left right span, frames, s => by
    rw [expression]
    refine .first rfl ((steps_expression hcall left _ s).handed rfl |>.andThen fun a s₁ _ => ?_)
    refine (steps_expression hcall right _ s₁).handed rfl |>.andThen fun b s₂ _ => ?_
    exact .refl
  | .assign target value span, frames, s => by
    -- the value comes first, whatever it is assigned to
    cases target with
    | name ident =>
      rw [expression]
      refine .first rfl ((steps_expression hcall value _ s).handed rfl |>.andThen fun v s₁ _ => ?_)
      exact .refl
    | index target key span =>
      rw [expression]
      refine .first rfl ((steps_expression hcall value _ s).handed rfl |>.andThen fun v s₁ _ => ?_)
      refine (steps_expression hcall target _ s₁).handed rfl |>.andThen fun t s₂ _ => ?_
      refine (steps_expression hcall key _ s₂).handed rfl |>.andThen fun k s₃ _ => ?_
      exact .refl
    | _ =>
      simp only [expression]
      refine .first rfl ((steps_expression hcall value _ s).handed rfl |>.andThen fun v s₁ _ => ?_)
      exact .refl
  | .index target key span, frames, s => by
    rw [expression]
    refine .first rfl ((steps_expression hcall target _ s).handed rfl |>.andThen fun t s₁ _ => ?_)
    refine (steps_expression hcall key _ s₁).handed rfl |>.andThen fun k s₂ _ => ?_
    exact .refl
  | .function parameters body _, frames, s => .single rfl
  | .call callee arguments span, frames, s => by
    rw [expression]
    refine .first rfl
      ((steps_expression hcall callee _ s).handed rfl |>.andThen fun function s₁ _ => ?_)
    refine (steps_items hcall (.call function span callee.span) [] arguments frames s₁).andThen
      fun values s₂ _ => ?_
    exact steps_call hcall function values span callee.span frames s₂
termination_by structural e => e

/-- The items of a list come to their values, which then serve their goal. -/
theorem steps_items (hcall : Performs call active) (goal : Goal) : ∀ (values : List Value)
    (es : List Expr) (frames : List Frame) (s : Store),
      Steps ⟨.items goal scope values es, frames, s, active⟩
      (proceed frames active (fun more => fulfil frames active goal (values ++ more))
        (expressions call scope es s))
  | values, [], frames, s => by
    rw [expressions]
    refine .single ?_
    show some (fulfil frames active goal values s) =
      some (fulfil frames active goal (values ++ []) s)
    rw [List.append_nil]
  | values, e :: rest, frames, s => by
    rw [expressions]
    refine .first rfl ((steps_expression hcall e _ s).handed rfl |>.andThen fun value s₁ _ => ?_)
    refine (steps_items hcall goal (values ++ [value]) rest frames s₁).andThen fun more s₂ _ => ?_
    show Steps (fulfil frames active goal (values ++ [value] ++ more) s₂) _
    rw [List.append_assoc]
    exact .refl
termination_by structural _ es => es

theorem steps_pairs (hcall : Performs call active) : ∀ (table : Table)
    (entries : List (Expr × Expr)) (frames : List Frame) (s : Store),
      Steps ⟨.pairs scope table entries, frames, s, active⟩
      (proceed frames active (fun table s => ⟨.pairs scope table [], frames, s, active⟩)
        (pairs call scope table entries s))
  | table, [], frames, s => by
    rw [pairs]
    exact .refl
  | table, (key, value) :: rest, frames, s => by
    rw [pairs]
    refine .first rfl ((steps_expression hcall key _ s).handed rfl |>.andThen fun k s₁ _ => ?_)
    refine (steps_expression hcall value _ s₁).handed rfl |>.andThen fun v s₂ _ => ?_
    refine Steps.andThen .refl fun table s₃ _ => ?_
    exact steps_pairs hcall table rest frames s₃
termination_by structural _ entries => entries

end

/-- A block that begins opens a scope of its own, in which its nodes come to null. -/
theorem steps_beginBlock {b : Block} (scope : Ref .scope)
    (h : ∀ inner frames s, Steps ⟨.nodes inner b.nodes, frames, s, active⟩
      (answer frames active ((do block call inner b; return .null : Eval Value) s)))
    (frames : List Frame) (s : Store) :
    Steps (beginBlock frames active scope b s)
      (answer frames active
        ((do block call (← inner .block scope) b; return .null : Eval Value) s)) :=
  h (s.addScope .block (some scope)).1 frames (s.addScope .block (some scope)).2

mutual

/-- **A node comes to its value** or its error. -/
theorem steps_node (hcall : Performs call active) {scope : Ref .scope} : ∀ (n : Node)
    (frames : List Frame) (s : Store), Steps ⟨.node scope n, frames, s, active⟩
      (answer frames active (node call scope n s))
  | .binding ident value _, frames, s => by
    rw [node]
    refine .first rfl ((steps_expression hcall value _ s).handed rfl |>.andThen fun v s' _ => ?_)
    exact .refl
  | .returning none _, frames, s => by
    rw [node]
    exact .single rfl
  | .returning (some value) _, frames, s => by
    rw [node]
    refine .first rfl ((steps_expression hcall value _ s).handed rfl |>.andThen fun v s' _ => ?_)
    exact .refl
  | .conditional condition consequence none _, frames, s => by
    rw [node]
    refine .first rfl
      ((steps_expression hcall condition _ s).handed rfl |>.andThen fun c s' _ => ?_)
    -- The condition has come to a value, which decides the block that the machine begins.
    unfold resume
    dsimp only
    split
    · exact steps_beginBlock scope
        (fun _ frames s => steps_block hcall consequence frames s) frames s'
    · exact .refl
  | .conditional condition consequence (some alternative) _, frames, s => by
    rw [node]
    refine .first rfl
      ((steps_expression hcall condition _ s).handed rfl |>.andThen fun c s' _ => ?_)
    unfold resume
    dsimp only
    split
    · exact steps_beginBlock scope
        (fun _ frames s => steps_block hcall consequence frames s) frames s'
    · exact steps_beginBlock scope
        (fun _ frames s => steps_block hcall alternative frames s) frames s'
  | .expression value, frames, s => by
    rw [node]
    exact .first rfl (steps_expression hcall value frames s)
termination_by structural n => n

/-- **The nodes of a block come to null**, all of them or up to the one that returns. -/
theorem steps_nodes (hcall : Performs call active) {scope : Ref .scope} : ∀ (ns : List Node)
    (frames : List Frame) (s : Store), Steps ⟨.nodes scope ns, frames, s, active⟩
      (answer frames active ((do nodes call scope ns; return .null : Eval Value) s))
  | [], frames, s => by
    rw [nodes]
    exact .single rfl
  | n :: rest, frames, s => by
    rw [nodes, bind_assoc]
    refine .first rfl ((steps_node hcall n _ s).handed rfl |>.andThen fun v s' _ => ?_)
    -- the frame asks whether a return is pending now
    rw [bind_assoc, get_bind]
    unfold resume
    dsimp only
    split
    · exact .refl
    · exact steps_nodes hcall rest frames s'
termination_by structural ns => ns

theorem steps_block (hcall : Performs call active) {scope : Ref .scope} : ∀ (b : Block)
    (frames : List Frame) (s : Store), Steps ⟨.nodes scope b.nodes, frames, s, active⟩
      (answer frames active ((do block call scope b; return .null : Eval Value) s))
  | ⟨ns, _⟩, frames, s => by
    rw [block]
    exact steps_nodes hcall ns frames s
termination_by structural b => b

end

end Trees

/-! ### Calls and programs -/

/-- A body that is left is no longer active, whether it is left by a value or by an error. After
a value what it has returned is taken. -/
theorem steps_body {scope : Ref .scope} {x : Eval Unit}
    (h : Steps ⟨task, .body scope :: frames, s, active + 1⟩
      (answer (.body scope :: frames) (active + 1) ((do x; return .null : Eval Value) s))) :
    Steps ⟨task, .body scope :: frames, s, active + 1⟩
      (answer frames active ((do x; return (← takeReturn scope).getD .null : Eval Value) s)) := by
  refine h.trans (.single ?_)
  -- An error drops the frame of the body; a value makes the machine take what the scope has
  -- returned.
  cases hx : x s with
  | error error s' =>
    rw [bind_error hx, bind_error hx]
    rfl
  | ok _ s' =>
    rw [bind_ok hx, bind_ok hx]
    cases htake : takeReturn scope s' with
    | ok returned s'' =>
      rw [bind_ok htake]
      show some (proceed frames active _ (takeReturn scope s')) = _
      rw [htake]
      rfl
    | error error s'' =>
      rw [bind_error htake]
      show some (proceed frames active _ (takeReturn scope s')) = _
      rw [htake]
      rfl

/-- **Calls are performed** where those that may still become active are what is left of all. -/
theorem performs_callWithin : ∀ (n : Nat) {active : Nat}, active + n = maxCalls →
    Performs (callWithin n) active
  -- by induction on the calls left: the body of a call makes its own calls with one fewer
  | 0, active, hactive, ref, arguments, span, callee, frames, s => by
    rw [callWithin]
    refine .first rfl (Steps.andThen .refl fun closure s' _ => ?_)
    rw [enterBody, if_pos (by omega)]
    exact .refl
  | n + 1, active, hactive, ref, arguments, span, callee, frames, s => by
    rw [callWithin]
    refine .first rfl (Steps.andThen .refl fun closure s₁ _ => ?_)
    rw [enterBody, if_neg (by omega)]
    refine Steps.andThen .refl fun scope s₂ _ => ?_
    refine steps_body ?_
    exact steps_block (performs_callWithin n (by omega)) closure.body _ s₂

/-- The nodes of a program come to its value, the last one's or the one that is returned. -/
theorem steps_topLevel {call : Caller} (hcall : Performs call active) {scope : Ref .scope} :
    ∀ (ns : List Node) (last : Value) (frames : List Frame) (s : Store),
      Steps ⟨.topLevel scope last ns, frames, s, active⟩
        (answer frames active (topLevel call scope last ns s))
  | [], last, frames, s => by
    rw [topLevel]
    exact .single rfl
  | n :: rest, last, frames, s => by
    rw [topLevel]
    refine .first rfl ((steps_node hcall n _ s).handed rfl |>.andThen fun v s₁ _ => ?_)
    refine Steps.andThen .refl fun returned s₂ _ => ?_
    cases returned with
    | some value => exact .refl
    | none => exact steps_topLevel hcall rest v frames s₂

/-! ### Runs that end -/

theorem step_answer_nil (r : EStateM.Result RuntimeError Store Value) :
    (answer [] active r).step = none := by
  cases r <;> rfl

/-- An infinite run makes one step after another and never comes to a result. -/
def RunsForever (m : Machine) : Prop :=
  ∃ run : Nat → Machine, run 0 = m ∧ ∀ i, (run i).step = some (run (i + 1))

/-- A machine that comes to an end has no infinite run, for each of its steps is the only one. -/
theorem Steps.not_runsForever {m' : Machine} (h : Steps m m') (hend : m'.step = none) :
    ¬ m.RunsForever := by
  induction h using Relation.ReflTransGen.head_induction_on with
  | refl =>
    rintro ⟨run, hstart, hrun⟩
    have hstep := hrun 0
    rw [hstart, hend] at hstep
    cases hstep
  | head hstep _ ih =>
    -- the rest of an infinite run is one as well
    rintro ⟨run, hstart, hrun⟩
    have hnext := hrun 0
    rw [hstart, hstep] at hnext
    exact ih ⟨fun i => run (i + 1), (Option.some.inj hnext).symm, fun i => hrun (i + 1)⟩

/-- A machine ends with a result if its steps lead there, nothing waits and as many calls are
active as at first, and none of its runs goes on for ever. -/
structure EndsWith (m : Machine) (r : EStateM.Result RuntimeError Store Value) : Prop where
  steps : Steps m (answer [] m.active r)
  finite : ¬ m.RunsForever

theorem endsWith_of_steps {r : EStateM.Result RuntimeError Store Value}
    (h : Steps m (answer [] m.active r)) : m.EndsWith r :=
  ⟨h, h.not_runsForever (step_answer_nil r)⟩

/-- **Every evaluation ends.** Whatever the store holds and however many calls are active already, a
node and a program come to a value or an error in finitely many steps, and no run of them is
infinite. The result is that of the evaluation with the calls that are left. -/
theorem endsWith_callWithin (store : Store) (scope : Ref .scope) {active : Nat}
    (hactive : active ≤ maxCalls) :
    (∀ n : Node, (ofNode scope n store active).EndsWith
        (node (callWithin (maxCalls - active)) scope n store)) ∧
      ∀ p : Program, (ofProgram scope p store active).EndsWith
        (topLevel (callWithin (maxCalls - active)) scope .null p.nodes store) := by
  have hcall : Performs (callWithin (maxCalls - active)) active :=
    performs_callWithin _ (by omega)
  constructor
  · intro n
    exact endsWith_of_steps (steps_node hcall n [] store)
  · intro p
    exact endsWith_of_steps (steps_topLevel hcall p.nodes .null [] store)

/-- A function that calls itself without end and is bound in the scope that it was made in, called
where two more calls may become active: `let f = fn() { f() }; f()`. -/
theorem endsWith_callWithin_endlessRecursion :
    let root := Store.empty.addRoot
    let at0 : Span := .point 0
    let callF : Expr := .call (.name ⟨"f", at0⟩) [] at0
    let f := root.2.addClosure ⟨[], ⟨[.expression callF], at0⟩, root.1⟩
    let store := f.2.define root.1 "f" f.1
    9998 ≤ maxCalls ∧ ∃ after,
      (ofNode root.1 (.expression callF) store 9998).EndsWith
        (.error ⟨.callDepthExceeded, at0⟩ after) := by
  intro root at0 callF f store
  have hactive : 9998 ≤ maxCalls := by decide
  have hends := (endsWith_callWithin store root.1 hactive).1 (.expression callF)
  -- Two calls may become active, so the evaluator comes to the third within a few steps.
  have herror : (match node (callWithin (maxCalls - 9998)) root.1 (.expression callF) store with
      | .error error _ => some error
      | .ok _ _ => none) = some ⟨.callDepthExceeded, at0⟩ := by decide +kernel
  refine ⟨hactive, ?_⟩
  cases hresult : node (callWithin (maxCalls - 9998)) root.1 (.expression callF) store with
  | ok value after =>
    rw [hresult] at herror
    cases herror
  | error error after =>
    rw [hresult] at herror hends
    obtain rfl := Option.some.inj herror
    exact ⟨after, hends⟩

end Machine

end Script
