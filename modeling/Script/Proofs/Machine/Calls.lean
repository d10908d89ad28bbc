import Script.Proofs.Machine.Step
import Script.Proofs.Store.Boundaries

/-!
# How a machine counts its calls

The count of active calls goes up in one kind of step, which enters the body of a function, and down
in one other, which leaves it, be it with a value or with an error. What such a step does to the
count it does to the frames as well, so the count is at any time that of the bodies among the
frames. Arguments are evaluated before, and built-in functions and calls with a wrong number of
arguments never have a body among them.

* `Machine.Moves`, `Machine.moves_of_step`: what a step does to the frames and to the count;
* `Machine.Counted.step`: the count stays that of the bodies among the frames;
* `Machine.active_of_enters`, `Machine.active_of_leaves`, `Machine.active_of_neither`: when it
  changes;
* `Machine.OneProgram.step`: a program waits at the outermost frame, where no body is active;
* `Machine.exceeds_iff`: when a machine fails for too many calls.
-/

namespace Script

/-! ### Bodies among the frames -/

/-- The number of bodies that have been entered and not yet left, as the frames tell it. -/
def Frame.bodies : List Frame → Nat
  | [] => 0
  | frame :: frames => frame.calls + bodies frames

namespace Machine

open Eval

variable {α : Type} {m m' : Machine} {frames : List Frame} {active : Nat} {store : Store}

/-! ### Calls and what a step does to them -/

/-- A machine is about to call a function that takes as many arguments as it is given; the call
was read at a span. -/
def Calls (m : Machine) (closure : Closure) (span : Span) : Prop :=
  ∃ ref arguments callee, m.task = .call (.function ref) arguments span callee ∧
    m.store.closures.get? ref = some closure ∧ closure.parameters.length = arguments.length

/-- A step enters the body of a function that is called. -/
def Enters (m m' : Machine) : Prop :=
  ∃ closure span scope, m.Calls closure span ∧ m'.task = .nodes scope closure.body.nodes ∧
    m'.frames = .body scope :: m.frames

/-- A step leaves a body, to which a value has come or through which an error goes. -/
def Leaves (m m' : Machine) : Prop :=
  ∃ scope, m.frames = .body scope :: m'.frames ∧
    ((∃ value, m.task = .give value) ∨ ∃ error, m.task = .fail error)

/-- A machine goes on in front of some frames, with one more at the most. No body and no program
begins, and no call is refused for being one too many. -/
structure GoesOn (frames : List Frame) (active : Nat) (m' : Machine) : Prop where
  active : m'.active = active
  task : m'.task.isProgram = false
  frames : m'.frames = frames ∨ ∃ frame, m'.frames = frame :: frames ∧ frame.calls = 0 ∧
    frame.isProgram = false
  spares : ∀ span, m'.task ≠ .fail ⟨.callDepthExceeded, span⟩

/-- **What a step does** to the frames and to the count of active calls. -/
inductive Moves (m m' : Machine) : Prop
  /-- Goes on in front of all frames. -/
  | goesOn (h : GoesOn m.frames m.active m')
  /-- Hands a value to a frame that is neither a body nor a program, and goes on in front of the
  others. -/
  | resumes {value : Value} {frame : Frame} {frames : List Frame} (htask : m.task = .give value)
    (hframes : m.frames = frame :: frames) (hcalls : frame.calls = 0)
    (h : GoesOn frames m.active m')
  /-- Enters a body. -/
  | enters {closure : Closure} {span : Span} {scope : Ref .scope} (hcall : m.Calls closure span)
    (hlt : m.active < maxCalls) (htask : m'.task = .nodes scope closure.body.nodes)
    (hframes : m'.frames = .body scope :: m.frames) (hactive : m'.active = m.active + 1)
  /-- Refuses a call that would be one too many. -/
  | refuses {closure : Closure} {span : Span} (hcall : m.Calls closure span)
    (hle : maxCalls ≤ m.active)
    (h : m' = ⟨.fail ⟨.callDepthExceeded, span⟩, m.frames, m.store, m.active⟩)
  /-- Leaves a body with a value. -/
  | returns {value value' : Value} {scope : Ref .scope} (htask : m.task = .give value)
    (hframes : m.frames = .body scope :: m'.frames) (htask' : m'.task = .give value')
    (hactive : m'.active = m.active - 1)
  /-- Drops a frame on the way of an error. -/
  | drops {error : RuntimeError} {frame : Frame} (htask : m.task = .fail error)
    (hframes : m.frames = frame :: m'.frames) (htask' : m'.task = .fail error)
    (hstore : m'.store = m.store) (hactive : m'.active = m.active - frame.calls)
  /-- Begins a node of a program. -/
  | beginsNode {scope : Ref .scope} {last : Value} {n : Node} {rest : List Node}
    (htask : m.task = .topLevel scope last (n :: rest))
    (h : m' = ⟨.node scope n, .topLevel scope rest :: m.frames, m.store, m.active⟩)
  /-- Goes back to a program after a node. -/
  | endsNode {value : Value} {scope : Ref .scope} {rest : List Node} (htask : m.task = .give value)
    (hframes : m.frames = .topLevel scope rest :: m'.frames) (hactive : m'.active = m.active)
    (hspares : ∀ error, m'.task ≠ .fail error)

/-- What a single step evaluates does not fail for too many calls. -/
theorem neverExceeds_single {scope? : Option (Ref .scope)} {values : List Value} {x : Eval Value}
    (hx : Single scope? values x) : NeverExceeds x := by
  cases hx with
  | constant h => exact neverExceeds_pure _
  | fails h span => exact neverExceeds_fail h span
  | @resolve scope h ident => exact neverExceeds_resolve scope ident
  | closure | array | map | binding =>
    rintro s span s' ⟨⟩
  | @assignment scope h ident value =>
    exact (neverExceeds_assignName scope ident value).bind fun _ => neverExceeds_pure value
  | unary op value span => exact neverExceeds_lift (apply_unary_ne op value) span
  | binary op left right span => exact neverExceeds_lift (apply_binary_ne op left right) span
  | @index target h key span =>
    exact neverExceeds_get_bind fun s => neverExceeds_lift (index_ne s target key) span
  | @builtin b arguments h span => exact neverExceeds_callBuiltin b arguments span

theorem goesOn_proceed {next : α → Store → Machine} {x : Eval α} (hx : NeverExceeds x)
    (hnext : ∀ a s, GoesOn frames active (next a s)) :
    GoesOn frames active (proceed frames active next (x store)) := by
  cases hresult : x store with
  | ok a s => exact hnext a s
  | error error s =>
    refine ⟨rfl, rfl, .inl rfl, fun span heq => ?_⟩
    cases heq
    exact hx store span s hresult

theorem goesOn_answer {x : Eval Value} (hx : NeverExceeds x) :
    GoesOn frames active (answer frames active (x store)) :=
  goesOn_proceed hx fun value s => ⟨rfl, rfl, .inl rfl, by simp⟩

/-- Going on with what is at hand is going on in front of the frames behind. -/
theorem Goes.goesOn {front : Front} (h : Goes front store active m) :
    GoesOn front.rest active m := by
  cases h with
  | @turns task htask =>
    refine ⟨rfl, htask.isProgram, .inl rfl, fun span heq => ?_⟩
    have hfailure := htask.isFailure
    rw [show task = _ from heq] at hfailure
    cases hfailure
  | asks hscope hframe =>
    exact ⟨rfl, rfl, .inr ⟨_, rfl, hframe.calls, hframe.isProgram⟩, by simp⟩
  | beginsNode => exact ⟨rfl, rfl, .inr ⟨_, rfl, rfl, rfl⟩, by simp⟩
  | answers hx => exact goesOn_answer (neverExceeds_single hx)
  | inserts key span =>
    exact goesOn_proceed (neverExceeds_insertPair _ key _ span) fun table s =>
      ⟨rfl, rfl, .inl rfl, by simp⟩
  | leavesReturn => exact ⟨rfl, rfl, .inl rfl, by simp⟩
  | beginsBlock => exact ⟨rfl, rfl, .inl rfl, by simp [beginBlock]⟩

theorem goesOn_assigns (target key value : Value) (span : Span) :
    GoesOn frames active
      (answer frames active ((do assignElement target key value span; return value) store)) :=
  goesOn_answer ((neverExceeds_assignElement target key value span).bind fun _ =>
    neverExceeds_pure value)

/-- A step that goes on with what is at hand goes on in front of all frames, or of those behind the
one that has got a value. -/
theorem moves_of_goes {front : Front} (hat : m.At front) (h : GoesOn front.rest m.active m') :
    Moves m m' := by
  cases hat with
  | task => exact .goesOn h
  | frame hcalls hprogram => exact .resumes rfl rfl hcalls h

/-- **Every step does one of these.** -/
theorem moves_of_step (h : m.step = some m') : Moves m m' := by
  cases does_of_step h with
  | goes hat hgoes => exact moves_of_goes hat hgoes.goesOn
  | @assignsElement key value target span =>
    exact .resumes rfl rfl rfl (goesOn_assigns target key value span)
  | enters hget harity hlt henter =>
    exact .enters ⟨_, _, _, rfl, hget, harity⟩ hlt rfl rfl rfl
  | refuses hget harity hle => exact .refuses ⟨_, _, _, rfl, hget, harity⟩ hle rfl
  | leavesBody =>
    rw [Store.takeReturn_eq]
    exact .returns rfl rfl rfl rfl
  | beginsTopLevel => exact .beginsNode rfl rfl
  | @endsTopLevel value scope rest frames store =>
    rw [Store.takeReturn_eq]
    cases store.pendingReturn? scope <;> exact .endsNode rfl rfl rfl (by simp [proceed])
  | drops => exact .drops rfl rfl rfl rfl rfl

/-! ### The count -/

theorem calls_eq_zero_or (frame : Frame) : frame.calls = 0 ∨ ∃ scope, frame = .body scope := by
  cases frame with
  | body scope => exact .inr ⟨scope, rfl⟩
  | _ => exact .inl rfl

theorem GoesOn.bodies (h : GoesOn frames active m) :
    Frame.bodies m.frames = Frame.bodies frames := by
  rcases h.frames with heq | ⟨frame, heq, hcalls, -⟩
  · rw [heq]
  · rw [heq, Frame.bodies, hcalls, Nat.zero_add]

theorem GoesOn.length_le (h : GoesOn frames active m) : frames.length ≤ m.frames.length := by
  rcases h.frames with heq | ⟨frame, heq, -, -⟩ <;> simp [heq]

theorem GoesOn.not_body (h : GoesOn frames active m) (scope : Ref .scope) :
    m.frames ≠ .body scope :: frames := by
  intro hbody
  rcases h.frames with heq | ⟨frame, heq, hcalls, -⟩
  · exact List.cons_ne_self _ _ (hbody.symm.trans heq)
  · obtain ⟨rfl, -⟩ := List.cons.inj (hbody.symm.trans heq)
    cases hcalls

/-- The count is exact: it is the number of bodies among the frames, and those are not more than
may be active. -/
structure Counted (m : Machine) : Prop where
  active_eq : m.active = Frame.bodies m.frames
  le_max : m.active ≤ maxCalls

theorem counted_of_frames_nil (hframes : m.frames = []) (hactive : m.active = 0) : m.Counted := by
  refine ⟨?_, hactive ▸ Nat.zero_le _⟩
  rw [hframes, hactive]
  rfl

/-- A machine that has ended waits for nothing. -/
theorem frames_eq_nil_of_step_eq_none (h : m.step = none) : m.frames = [] := by
  obtain ⟨task, frames, store, active⟩ := m
  cases frames with
  | nil => rfl
  | cons frame frames =>
    cases task with
    | items goal scope values rest | pairs scope table rest | nodes scope rest
    | topLevel scope last rest => cases rest <;> cases h
    | _ => cases h

/-- A machine that has ended counts no calls. -/
theorem Counted.active_of_step_eq_none (hm : m.Counted) (h : m.step = none) : m.active = 0 := by
  rw [hm.active_eq, frames_eq_nil_of_step_eq_none h]
  rfl

/-- **Every step keeps the count exact.** -/
theorem Counted.step (hm : m.Counted) (h : m.step = some m') : m'.Counted := by
  obtain ⟨heq, hle⟩ := hm
  -- Only entering a body and leaving one change the number of the bodies among the frames, and both
  -- change the count with it.
  cases moves_of_step h with
  | goesOn hgoes => exact ⟨by rw [hgoes.active, hgoes.bodies, heq], hgoes.active ▸ hle⟩
  | @resumes value frame frames htask hframes hcalls hgoes =>
    rw [hframes, Frame.bodies, hcalls, Nat.zero_add] at heq
    exact ⟨by rw [hgoes.active, hgoes.bodies, heq], hgoes.active ▸ hle⟩
  | @enters closure span scope hcall hlt htask hframes hactive =>
    refine ⟨?_, by omega⟩
    rw [hframes, hactive, heq, Frame.bodies, Nat.add_comm]
    rfl
  | refuses hcall hfull heq' => exact heq' ▸ ⟨heq, hle⟩
  | @returns value value' scope htask hframes htask' hactive =>
    rw [hframes, Frame.bodies] at heq
    have hbody : (Frame.body scope).calls = 1 := rfl
    exact ⟨by omega, by omega⟩
  | drops htask hframes htask' hstore hactive =>
    rw [hframes, Frame.bodies] at heq
    exact ⟨by omega, by omega⟩
  | beginsNode htask heq' =>
    subst heq'
    exact ⟨by rw [heq, Frame.bodies]; exact (Nat.zero_add _).symm, hle⟩
  | @endsNode value scope rest htask hframes hactive hspares =>
    rw [hframes, Frame.bodies] at heq
    have hnode : (Frame.topLevel scope rest).calls = 0 := rfl
    exact ⟨by omega, by omega⟩

theorem Counted.steps (hm : m.Counted) (h : Steps m m') : m'.Counted := by
  induction h with
  | refl => exact hm
  | tail _ hstep ih => exact ih.step hstep

/-- **Entering a body** counts one more. -/
theorem active_of_enters (h : m.step = some m') (henters : Enters m m') :
    m'.active = m.active + 1 := by
  obtain ⟨closure, span, scope, ⟨ref, arguments, callee, htask, -, -⟩, -, hbody⟩ := henters
  cases moves_of_step h with
  | goesOn hgoes => exact absurd hbody (hgoes.not_body scope)
  | enters hcall hlt htask' hframes hactive => exact hactive
  | refuses hcall hfull heq =>
    subst heq
    exact absurd hbody.symm (List.cons_ne_self _ _)
  | resumes htask' | returns htask' | drops htask' | beginsNode htask' | endsNode htask' =>
    rw [htask] at htask'
    cases htask'

/-- **Leaving a body** counts one fewer. -/
theorem active_of_leaves (hm : m.Counted) (h : m.step = some m') (hleaves : Leaves m m') :
    m'.active + 1 = m.active := by
  obtain ⟨scope, hbody, htask⟩ := hleaves
  -- a body among the frames is counted
  have hcount := hm.active_eq
  rw [hbody, Frame.bodies] at hcount
  have hone : (Frame.body scope).calls = 1 := rfl
  cases moves_of_step h with
  | goesOn hgoes =>
    have hlength := hgoes.length_le
    rw [hbody, List.length_cons] at hlength
    omega
  | resumes htask' hframes hcalls =>
    obtain ⟨rfl, -⟩ := List.cons.inj (hframes.symm.trans hbody)
    cases hcalls
  | returns htask' hframes htask'' hactive => omega
  | drops htask' hframes htask'' hstore hactive =>
    obtain ⟨rfl, -⟩ := List.cons.inj (hframes.symm.trans hbody)
    omega
  | endsNode htask' hframes => cases hframes.symm.trans hbody
  | enters hcall | refuses hcall =>
    obtain ⟨ref, arguments, callee, htask', -, -⟩ := hcall
    rcases htask with ⟨value, htask⟩ | ⟨error, htask⟩ <;> cases htask.symm.trans htask'
  | beginsNode htask' =>
    rcases htask with ⟨value, htask⟩ | ⟨error, htask⟩ <;> cases htask.symm.trans htask'

/-- **No other step** changes the count. -/
theorem active_of_neither (h : m.step = some m') (henters : ¬ Enters m m')
    (hleaves : ¬ Leaves m m') : m'.active = m.active := by
  cases moves_of_step h with
  | goesOn hgoes => exact hgoes.active
  | resumes htask hframes hcalls hgoes => exact hgoes.active
  | enters hcall hlt htask hframes hactive =>
    exact absurd ⟨_, _, _, hcall, htask, hframes⟩ henters
  | refuses hcall hfull heq => rw [heq]
  | returns htask hframes => exact absurd ⟨_, hframes, .inl ⟨_, htask⟩⟩ hleaves
  | @drops error frame htask hframes htask' hstore hactive =>
    rcases calls_eq_zero_or frame with hcalls | ⟨scope, rfl⟩
    · rw [hactive, hcalls, Nat.sub_zero]
    · exact absurd ⟨scope, hframes, .inr ⟨_, htask⟩⟩ hleaves
  | beginsNode htask heq => rw [heq]
  | endsNode htask hframes hactive => exact hactive

/-! ### Between the nodes of a program -/

/-- A program waits at the outermost frame alone. -/
def Frame.OutermostProgram : List Frame → Prop
  | [] => True
  | frame :: frames => (frame.isProgram = true → frames = []) ∧ OutermostProgram frames

/-- A program is not evaluated inside of anything else. -/
structure OneProgram (m : Machine) : Prop where
  task : m.task.isProgram = true → m.frames = []
  frames : Frame.OutermostProgram m.frames

theorem oneProgram_of_frames_nil (hframes : m.frames = []) : m.OneProgram :=
  ⟨fun _ => hframes, hframes ▸ trivial⟩

theorem GoesOn.oneProgram (h : GoesOn frames active m) (hframes : Frame.OutermostProgram frames) :
    m.OneProgram := by
  refine ⟨by simp [h.task], ?_⟩
  rcases h.frames with heq | ⟨frame, heq, -, hprogram⟩
  · exact heq ▸ hframes
  · rw [heq]
    exact ⟨by simp [hprogram], hframes⟩

theorem OneProgram.step (hm : m.OneProgram) (h : m.step = some m') : m'.OneProgram := by
  obtain ⟨htop, hall⟩ := hm
  cases moves_of_step h with
  | goesOn hgoes => exact hgoes.oneProgram hall
  | resumes htask hframes hcalls hgoes =>
    rw [hframes] at hall
    exact hgoes.oneProgram hall.2
  | enters hcall hlt htask hframes hactive =>
    refine ⟨by simp [htask, Task.isProgram], ?_⟩
    rw [hframes]
    exact ⟨by simp [Frame.isProgram], hall⟩
  | refuses hcall hfull heq =>
    subst heq
    exact ⟨by simp [Task.isProgram], hall⟩
  | returns htask hframes htask' =>
    rw [hframes] at hall
    exact ⟨by simp [htask', Task.isProgram], hall.2⟩
  | drops htask hframes htask' =>
    rw [hframes] at hall
    exact ⟨by simp [htask', Task.isProgram], hall.2⟩
  | beginsNode htask heq =>
    subst heq
    -- A node of a program begins with no frame at all, so its own frame is the last one.
    have hnil := htop (by rw [htask]; rfl)
    exact ⟨by simp [Task.isProgram], fun _ => hnil, hall⟩
  | endsNode htask hframes =>
    rw [hframes] at hall
    exact ⟨fun _ => hall.1 rfl, hall.2⟩

/-! ### Calls that are refused -/

/-- A call enters the body, unless that would be one too many. -/
theorem step_of_calls {closure : Closure} {span : Span} (h : m.Calls closure span) :
    ∃ arguments, m.step = some (enterBody m.frames m.active closure arguments span m.store) := by
  obtain ⟨task, frames, store, active⟩ := m
  obtain ⟨ref, arguments, callee, rfl, hget, harity⟩ := h
  refine ⟨arguments, ?_⟩
  have hcallee : Eval.callee ref arguments span store = .ok closure store :=
    callee_eq_ok_iff.2 ⟨hget, harity, rfl⟩
  show some (proceed frames active _ (Eval.callee ref arguments span store)) = _
  rw [hcallee]
  rfl

theorem step_of_calls_of_lt {closure : Closure} {span : Span} (h : m.Calls closure span)
    (hlt : m.active < maxCalls) : ∃ m', m.step = some m' ∧ Enters m m' := by
  obtain ⟨arguments, hstep⟩ := step_of_calls h
  rw [enterBody, if_neg (Nat.not_le_of_lt hlt)] at hstep
  exact ⟨_, hstep, closure, span, _, h, rfl, rfl⟩

theorem step_of_calls_of_le {closure : Closure} {span : Span} (h : m.Calls closure span)
    (hle : maxCalls ≤ m.active) :
    m.step = some ⟨.fail ⟨.callDepthExceeded, span⟩, m.frames, m.store, m.active⟩ := by
  obtain ⟨arguments, hstep⟩ := step_of_calls h
  rw [enterBody, if_pos hle] at hstep
  exact hstep

/-- An error goes through all frames and leaves the store as it is. -/
theorem steps_fail (error : RuntimeError) (store : Store) (frames : List Frame) (active : Nat) :
    ∃ active', Steps ⟨.fail error, frames, store, active⟩ ⟨.fail error, [], store, active'⟩ := by
  induction frames generalizing active with
  | nil => exact ⟨active, .refl⟩
  | cons frame frames ih =>
    obtain ⟨active', hsteps⟩ := ih (active - frame.calls)
    exact ⟨active', .first rfl hsteps⟩

/-- Where calls have been exceeded, a call was refused in the same store. -/
theorem exists_calls_of_exceeded {span : Span} (hstart : ∀ error, m.task ≠ .fail error)
    (h : Steps m m') (hfail : m'.task = .fail ⟨.callDepthExceeded, span⟩) :
    ∃ m₁ closure, Steps m m₁ ∧ m₁.Calls closure span ∧ maxCalls ≤ m₁.active ∧
      m₁.store = m'.store := by
  induction h with
  | refl => exact absurd hfail (hstart _)
  | tail hbefore hstep ih =>
    cases moves_of_step hstep with
    | goesOn hgoes => exact absurd hfail (hgoes.spares span)
    | resumes htask hframes hcalls hgoes => exact absurd hfail (hgoes.spares span)
    | refuses hcall hfull heq =>
      subst heq
      cases hfail
      exact ⟨_, _, hbefore, hcall, hfull, rfl⟩
    | drops htask hframes htask' hstore hactive =>
      -- the error comes from further in
      rw [htask'] at hfail
      cases hfail
      rw [hstore]
      exact ih htask
    | endsNode htask hframes hactive hspares => exact absurd hfail (hspares _)
    | enters hcall hlt htask | returns htask hframes htask =>
      rw [htask] at hfail
      cases hfail
    | beginsNode htask heq =>
      subst heq
      cases hfail

/-- The ends of a machine are the same, for each of its steps is the only one. -/
theorem Steps.end_unique {m₁ m₂ : Machine} (h₁ : Steps m m₁) (h₂ : Steps m m₂)
    (hend₁ : m₁.step = none) (hend₂ : m₂.step = none) : m₁ = m₂ := by
  have hunique : Relator.RightUnique fun m m' : Machine => m.step = some m' :=
    fun a b c hb hc => Option.some.inj (hb.symm.trans hc)
  have hstuck {a b : Machine} (hend : a.step = none) (h : Steps a b) : a = b := by
    cases Relation.ReflTransGen.cases_head h with
    | inl heq => exact heq
    | inr hhead =>
      obtain ⟨c, hstep, -⟩ := hhead
      rw [hend] at hstep
      cases hstep
  rcases Relation.ReflTransGen.total_of_right_unique hunique h₁ h₂ with h | h
  · exact hstuck hend₁ h
  · exact (hstuck hend₂ h).symm

/-- A machine comes to a call that is one too many, read at a span and made in a store: it is
about to call a function, with the right number of arguments, while as many bodies are entered and
not left as may be. -/
def Exceeds (m : Machine) (span : Span) (after : Store) : Prop :=
  ∃ m₁ closure, Steps m m₁ ∧ m₁.Calls closure span ∧ Frame.bodies m₁.frames = maxCalls ∧
    m₁.store = after

/-- **A machine fails for too many calls** exactly if it comes to a call that is one too many. The
error tells where that call was read, and the store is left as it was then. -/
theorem exceeds_iff {r : EStateM.Result RuntimeError Store Value} {span : Span} {after : Store}
    (hcounted : m.Counted) (hstart : ∀ error, m.task ≠ .fail error) (hends : m.EndsWith r) :
    r = .error ⟨.callDepthExceeded, span⟩ after ↔ m.Exceeds span after := by
  constructor
  · rintro rfl
    obtain ⟨m₁, closure, hsteps, hcall, hfull, hstore⟩ :=
      exists_calls_of_exceeded hstart hends.steps rfl
    obtain ⟨hactive, hle⟩ := hcounted.steps hsteps
    exact ⟨m₁, closure, hsteps, hcall, by omega, hstore⟩
  · rintro ⟨m₁, closure, hsteps, hcall, hfull, rfl⟩
    obtain ⟨hactive, hle⟩ := hcounted.steps hsteps
    have hrefused := step_of_calls_of_le hcall (by omega)
    obtain ⟨active', hfails⟩ :=
      steps_fail ⟨.callDepthExceeded, span⟩ m₁.store m₁.frames m₁.active
    have hreached : Steps m ⟨.fail _, [], m₁.store, active'⟩ := (hsteps.tail hrefused).trans hfails
    have hend := hreached.end_unique hends.steps rfl (step_answer_nil r)
    cases r with
    | ok value s => cases hend
    | error error s =>
      cases hend
      rfl

end Machine

end Script
