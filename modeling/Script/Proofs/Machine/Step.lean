import Script.Proofs.Eval.CallLimit
import Script.Proofs.Machine.Runs
import Script.Proofs.Store.Places

/-!
# What a step can do

Every step of a machine is one of a few kinds. Most of them take what is *at hand*, the task or the
innermost frame with the value that it gets, and go on with that: they turn to the next task, set a
frame aside, or perform a single evaluation. The others enter a function or leave it, go from one
node of a program to the next, assign an element, or drop a frame on the way of an error.

What a machine is made of matters only by the scope and the values in it, and by what it may do with
a pending return. What holds of all steps is proved by going through these kinds, once for each
property.

* `Front`, `Machine.At`: what is at hand for a step;
* `Single`: an evaluation that a single step performs;
* `Goes`: what a step does with what is at hand, and `Machine.Does`: all that a step does;
* `Machine.does_of_step`: every step does one of these.
-/

namespace Script

/-! ### What tasks and frames are made of -/

/-- The values held for what a list of values is for. -/
def Goal.values : Goal → List Value
  | .array => []
  | .call function _ _ => [function]

namespace Task

/-- The scope that a task evaluates something in, if any. -/
def scope? : Task → Option (Ref .scope)
  | .expression scope _ => some scope
  | .items _ scope _ _ => some scope
  | .pairs scope _ _ => some scope
  | .node scope _ => some scope
  | .nodes scope _ => some scope
  | .topLevel scope _ _ => some scope
  | .call _ _ _ _ => none
  | .give _ => none
  | .fail _ => none

/-- The values that a task holds. -/
def values : Task → List Value
  | .items goal _ values _ => goal.values ++ values
  | .pairs _ table _ => table.values
  | .call function arguments _ _ => function :: arguments
  | .topLevel _ last _ => [last]
  | .give value => [value]
  | .expression _ _ | .node _ _ | .nodes _ _ | .fail _ => []

/-- Whether a task may leave a return pending for its scope. -/
def mayReturn : Task → Bool
  | .node _ _ => true
  | .nodes _ _ => true
  | _ => false

/-- Whether a task goes on with a program. -/
def isProgram : Task → Bool
  | .topLevel _ _ _ => true
  | _ => false

/-- Whether a task is to fail. -/
def isFailure : Task → Bool
  | .fail _ => true
  | _ => false

end Task

namespace Frame

/-- The scope that a frame goes on in, if any. -/
def scope? : Frame → Option (Ref .scope)
  | .item _ scope _ _ => some scope
  | .key scope _ _ _ _ => some scope
  | .entry scope _ _ _ _ => some scope
  | .operand _ _ => none
  | .left _ scope _ _ => some scope
  | .right _ _ _ => none
  | .assigned scope _ => some scope
  | .assignedTarget scope _ _ _ => some scope
  | .assignedKey _ _ _ => none
  | .indexed scope _ _ => some scope
  | .index _ _ => none
  | .callee scope _ _ _ => some scope
  | .binding scope _ => some scope
  | .returning scope => some scope
  | .condition scope _ _ => some scope
  | .nodes scope _ => some scope
  | .body scope => some scope
  | .topLevel scope _ => some scope

/-- The values that a frame holds. -/
def values : Frame → List Value
  | .item goal _ values _ => goal.values ++ values
  | .key _ table _ _ _ => table.values
  | .entry _ table k _ _ => k :: table.values
  | .right _ l _ => [l]
  | .assignedTarget _ value _ _ => [value]
  | .assignedKey value target _ => [value, target]
  | .index target _ => [target]
  | .operand _ _ | .left _ _ _ _ | .assigned _ _ | .indexed _ _ _ | .callee _ _ _ _ => []
  | .binding _ _ | .returning _ | .condition _ _ _ | .nodes _ _ | .body _ | .topLevel _ _ => []

/-- Whether a frame may leave a return pending for its scope, or hand one on. -/
def mayReturn : Frame → Bool
  | .returning _ => true
  | .condition _ _ _ => true
  | .nodes _ _ => true
  | _ => false

/-- The scope for which a frame looks for a return when it gets a value. -/
def looksIn? : Frame → Option (Ref .scope)
  | .nodes scope _ => some scope
  | .body scope => some scope
  | .topLevel scope _ => some scope
  | _ => none

/-- Whether a frame goes on with a program. -/
def isProgram : Frame → Bool
  | .topLevel _ _ => true
  | _ => false

end Frame

/-! ### What is at hand -/

/-- **What is at hand for a step**: a scope to go on in, values, whether a return may be left
pending for the scope, and the frames behind. -/
structure Front where
  scope? : Option (Ref .scope)
  values : List Value
  mayReturn : Bool
  rest : List Frame

/-- A frame can be set aside that is made of what is at hand. -/
structure Frame.MadeOf (front : Front) (frame : Frame) : Prop where
  values : frame.values ⊆ front.values
  scope : ∀ scope, frame.scope? = some scope → front.scope? = some scope
  mayReturn : frame.mayReturn = true → front.mayReturn = true
  calls : frame.calls = 0
  isProgram : frame.isProgram = false

/-- A task to turn to is made of what is at hand. -/
structure Task.MadeOf (front : Front) (task : Task) : Prop where
  values : task.values ⊆ front.values
  scope : ∀ scope, task.scope? = some scope → front.scope? = some scope
  mayReturn : task.mayReturn = true → front.mayReturn = true
  isProgram : task.isProgram = false
  isFailure : task.isFailure = false

/-! ### Single evaluations -/

section Evaluations

open Eval

/-- **An evaluation that a single step performs**, in a scope and with values that are at hand. -/
inductive Single (scope? : Option (Ref .scope)) (values : List Value) : Eval Value → Prop where
  | constant {v : Value} (h : v = .null ∨ v.Hashable) : Single scope? values (pure v)
  | fails {cause : RuntimeCause} (h : cause ≠ .callDepthExceeded) (span : Span) :
      Single scope? values (fail cause span)
  | resolve {scope : Ref .scope} (hscope : scope? = some scope) (ident : Ident) :
      Single scope? values (resolve scope ident)
  | closure {closure : Closure} (hscope : scope? = some closure.scope) :
      Single scope? values (modifyGet fun store => store.addClosure closure)
  | array {elements : List Value} (h : elements ⊆ values) :
      Single scope? values (modifyGet fun store => store.addArray elements)
  | map {table : Table} (h : table.values ⊆ values) :
      Single scope? values (modifyGet fun store => store.addMap table)
  | binding {scope : Ref .scope} (hscope : scope? = some scope) (name : String) {value : Value}
      (hvalue : value ∈ values) :
      Single scope? values (do modify (·.define scope name value); return .null)
  | assignment {scope : Ref .scope} (hscope : scope? = some scope) (ident : Ident) {value : Value}
      (hvalue : value ∈ values) :
      Single scope? values (do assignName scope ident value; return value)
  | unary (op : UnaryOp) (value : Value) (span : Span) :
      Single scope? values (lift span (op.apply value))
  | binary (op : BinaryOp) (left right : Value) (span : Span) :
      Single scope? values (lift span (op.apply left right))
  | index {target : Value} (h : target ∈ values) (key : Value) (span : Span) :
      Single scope? values (do lift span ((← get).index target key))
  | builtin (b : Builtin) {arguments : List Value} (h : arguments ⊆ values) (span : Span) :
      Single scope? values (callBuiltin b arguments span)

end Evaluations

namespace Machine

open Eval

/-! ### What a step does -/

/-- **A step goes on with what is at hand.** -/
inductive Goes (front : Front) (store : Store) (active : Nat) : Machine → Prop where
  /-- Turns to the next task. -/
  | turns {task : Task} (h : task.MadeOf front) :
      Goes front store active ⟨task, front.rest, store, active⟩
  /-- Sets a frame aside for the value of an expression. -/
  | asks {scope : Ref .scope} {e : Expr} {frame : Frame} (hscope : front.scope? = some scope)
      (hframe : frame.MadeOf front) :
      Goes front store active ⟨.expression scope e, frame :: front.rest, store, active⟩
  /-- Begins a node of a block, whose other nodes wait for it. -/
  | beginsNode {scope : Ref .scope} {n : Node} {rest : List Node}
      (hscope : front.scope? = some scope) (hreturn : front.mayReturn = true) :
      Goes front store active ⟨.node scope n, .nodes scope rest :: front.rest, store, active⟩
  /-- Performs a single evaluation and gives its value. -/
  | answers {x : Eval Value} (hx : Single front.scope? front.values x) :
      Goes front store active (answer front.rest active (x store))
  /-- Puts a pair into a map that is being made. -/
  | inserts {scope : Ref .scope} {table : Table} {value : Value} (key : Value) (span : Span)
      (rest : List (Expr × Expr)) (hscope : front.scope? = some scope)
      (htable : table.values ⊆ front.values) (hvalue : value ∈ front.values) :
      Goes front store active
        (proceed front.rest active
          (fun table store => ⟨.pairs scope table rest, front.rest, store, active⟩)
          (insertPair table key value span store))
  /-- Leaves a return pending. -/
  | leavesReturn {scope : Ref .scope} {value : Value} (hscope : front.scope? = some scope)
      (hreturn : front.mayReturn = true) (hvalue : value ∈ Value.null :: front.values) :
      Goes front store active ⟨.give .null, front.rest, store.setReturn scope value, active⟩
  /-- Begins a block in a scope of its own. -/
  | beginsBlock {scope : Ref .scope} (b : Block) (hscope : front.scope? = some scope)
      (hreturn : front.mayReturn = true) :
      Goes front store active (beginBlock front.rest active scope b store)

/-- **A machine has something at hand**: its task, or the innermost frame with the value that it
gets, if that is neither the body of a function nor a program. -/
inductive At : Machine → Front → Prop where
  | task {task : Task} {frames : List Frame} {store : Store} {active : Nat} :
      At ⟨task, frames, store, active⟩ ⟨task.scope?, task.values, task.mayReturn, frames⟩
  | frame {value : Value} {frame : Frame} {frames : List Frame} {store : Store} {active : Nat}
      (hcalls : frame.calls = 0) (hprogram : frame.isProgram = false) :
      At ⟨.give value, frame :: frames, store, active⟩
        ⟨frame.scope?, value :: frame.values, frame.mayReturn, frames⟩

/-- **All that a step does.** -/
inductive Does : Machine → Machine → Prop where
  /-- Goes on with what is at hand. -/
  | goes {m m' : Machine} {front : Front} (hat : m.At front)
      (h : Goes front m.store m.active m') : Does m m'
  /-- Assigns an element of an array or a map. -/
  | assignsElement {key value target : Value} {span : Span} {frames : List Frame} {store : Store}
      {active : Nat} :
      Does ⟨.give key, .assignedKey value target span :: frames, store, active⟩
        (answer frames active ((do assignElement target key value span; return value) store))
  /-- Enters the body of a function. -/
  | enters {ref : Ref .closure} {closure : Closure} {arguments : List Value} {span callee : Span}
      {frames : List Frame} {store after : Store} {active : Nat} {scope : Ref .scope}
      (hget : store.closures.get? ref = some closure)
      (harity : closure.parameters.length = arguments.length) (hlt : active < maxCalls)
      (henter : enter closure arguments store = .ok scope after) :
      Does ⟨.call (.function ref) arguments span callee, frames, store, active⟩
        ⟨.nodes scope closure.body.nodes, .body scope :: frames, after, active + 1⟩
  /-- Refuses a call that would be one too many. -/
  | refuses {ref : Ref .closure} {closure : Closure} {arguments : List Value} {span callee : Span}
      {frames : List Frame} {store : Store} {active : Nat}
      (hget : store.closures.get? ref = some closure)
      (harity : closure.parameters.length = arguments.length) (hle : maxCalls ≤ active) :
      Does ⟨.call (.function ref) arguments span callee, frames, store, active⟩
        ⟨.fail ⟨.callDepthExceeded, span⟩, frames, store, active⟩
  /-- Leaves the body of a function with a value. -/
  | leavesBody {value : Value} {scope : Ref .scope} {frames : List Frame} {store : Store}
      {active : Nat} :
      Does ⟨.give value, .body scope :: frames, store, active⟩
        (proceed frames (active - 1)
          (fun returned store => ⟨.give (returned.getD .null), frames, store, active - 1⟩)
          (takeReturn scope store))
  /-- Begins a node of a program. -/
  | beginsTopLevel {scope : Ref .scope} {last : Value} {n : Node} {rest : List Node}
      {frames : List Frame} {store : Store} {active : Nat} :
      Does ⟨.topLevel scope last (n :: rest), frames, store, active⟩
        ⟨.node scope n, .topLevel scope rest :: frames, store, active⟩
  /-- Goes back to a program after one of its nodes. -/
  | endsTopLevel {value : Value} {scope : Ref .scope} {rest : List Node} {frames : List Frame}
      {store : Store} {active : Nat} :
      Does ⟨.give value, .topLevel scope rest :: frames, store, active⟩
        (proceed frames active (fun returned store =>
          match returned with
          | some value => ⟨.give value, frames, store, active⟩
          | none => ⟨.topLevel scope value rest, frames, store, active⟩)
          (takeReturn scope store))
  /-- Drops a frame on the way of an error. -/
  | drops {error : RuntimeError} {frame : Frame} {frames : List Frame} {store : Store}
      {active : Nat} :
      Does ⟨.fail error, frame :: frames, store, active⟩
        ⟨.fail error, frames, store, active - frame.calls⟩

/-! ### Every step does one of these -/

section Goes

variable {front : Front} {scope : Ref .scope} {store : Store} {active : Nat}

theorem goes_give {v : Value} (h : v = .null ∨ v.Hashable) :
    Goes front store active ⟨.give v, front.rest, store, active⟩ :=
  .answers (.constant h)

theorem goes_fail {error : RuntimeError} (h : error.cause ≠ .callDepthExceeded) :
    Goes front store active ⟨.fail error, front.rest, store, active⟩ :=
  .answers (.fails h error.span)

theorem goes_index {target : Value} (htarget : target ∈ front.values) (key : Value) (span : Span) :
    Goes front store active
      (answer front.rest active (lift span (store.index target key) store)) :=
  .answers (x := do lift span ((← get).index target key)) (.index htarget key span)

section Scope

variable (hscope : front.scope? = some scope)
include hscope

theorem goes_beginExpression (e : Expr) :
    Goes front store active (beginExpression front.rest active scope store e) := by
  have hself : ∀ scope', some scope = some scope' → front.scope? = some scope' := fun _ h =>
    hscope.trans h
  cases e with
  | name ident => exact .answers (.resolve hscope ident)
  | integer value span => exact goes_give (.inr (.inl rfl))
  | boolean value span => exact goes_give (.inr (.inr (.inl rfl)))
  | string value span => exact goes_give (.inr (.inr (.inr rfl)))
  | array elements span => exact .turns ⟨List.nil_subset _, hself, nofun, rfl, rfl⟩
  | map entries span => exact .turns ⟨List.nil_subset _, hself, nofun, rfl, rfl⟩
  | unary op operand span => exact .asks hscope ⟨List.nil_subset _, nofun, nofun, rfl, rfl⟩
  | function parameters body span => exact .answers (.closure hscope)
  | binary | assign | index | call =>
    exact .asks hscope ⟨List.nil_subset _, hself, nofun, rfl, rfl⟩

theorem goes_define (name : String) {value : Value} (hvalue : value ∈ front.values) :
    Goes front store active
      ⟨.give .null, front.rest, store.define scope name value, active⟩ :=
  .answers (x := do modify (·.define scope name value); return .null) (.binding hscope name hvalue)

theorem goes_beginTarget {value : Value} (hvalue : value ∈ front.values) (target : Expr) :
    Goes front store active (beginTarget front.rest active scope value store target) := by
  cases target with
  | name ident => exact .answers (.assignment hscope ident hvalue)
  | index target key span =>
    exact .asks hscope
      ⟨List.cons_subset.2 ⟨hvalue, List.nil_subset _⟩, fun _ h => hscope.trans h, nofun, rfl, rfl⟩
  | _ => exact goes_fail (by simp)

variable (hreturn : front.mayReturn = true)
include hreturn

theorem goes_beginNode (n : Node) :
    Goes front store active (beginNode front.rest active scope store n) := by
  have hself : ∀ scope', some scope = some scope' → front.scope? = some scope' := fun _ h =>
    hscope.trans h
  cases n with
  | returning value span =>
    cases value with
    | none => exact .leavesReturn hscope hreturn List.mem_cons_self
    | some value => exact .asks hscope ⟨List.nil_subset _, hself, fun _ => hreturn, rfl, rfl⟩
  | expression value => exact .turns ⟨List.nil_subset _, hself, nofun, rfl, rfl⟩
  | binding | conditional =>
    exact .asks hscope ⟨List.nil_subset _, hself, fun _ => hreturn, rfl, rfl⟩

end Scope

theorem goes_fulfil {goal : Goal} {values : List Value}
    (hvalues : goal.values ++ values ⊆ front.values) :
    Goes front store active (fulfil front.rest active goal values store) := by
  cases goal with
  | array => exact .answers (.array hvalues)
  | call function span callee => exact .turns ⟨hvalues, nofun, nofun, rfl, rfl⟩

end Goes

variable {frames : List Frame} {store : Store} {active : Nat}

/-- A call goes on with a built-in function or with an error, unless it comes to a body. -/
theorem does_beginCall (function : Value) (arguments : List Value) (span callee : Span) :
    Does ⟨.call function arguments span callee, frames, store, active⟩
      (beginCall frames active function arguments span callee store) := by
  cases function with
  | function ref =>
    rw [beginCall]
    rcases callee_cases store ref arguments span with
      ⟨closure, hget, harity, hcallee⟩ | ⟨cause, hcause, hcallee⟩
    · rw [hcallee]
      show Does _ (enterBody frames active closure arguments span store)
      unfold enterBody
      split
      · next hle => exact .refuses hget harity hle
      · next hlt => exact .enters hget harity (Nat.lt_of_not_le hlt) rfl
    · rw [hcallee]
      exact .goes .task (goes_fail hcause)
  | builtin b => exact .goes .task (.answers (.builtin b (List.subset_cons_self _ _) span))
  | _ => exact .goes .task (goes_fail (by simp))

/-- A frame that gets a value goes on with it, unless it is the body of a function or a program. -/
theorem does_resume (frame : Frame) (value : Value) :
    Does ⟨.give value, frame :: frames, store, active⟩
      (resume frames active frame value store) := by
  -- All frames but the last two make the machine go on with the value and what the frame holds, all
  -- that is at hand.
  have hresumes {m' : Machine} (hcalls : frame.calls = 0) (hprogram : frame.isProgram = false)
      (h : Goes ⟨frame.scope?, value :: frame.values, frame.mayReturn, frames⟩ store active m') :
      Does ⟨.give value, frame :: frames, store, active⟩ m' :=
    .goes (.frame hcalls hprogram) h
  have hvalue {values : List Value} : value ∈ value :: values := List.mem_cons_self
  have hheld {values : List Value} : values ⊆ value :: values := List.subset_cons_self _ _
  have honly {values : List Value} : [value] ⊆ value :: values :=
    List.cons_subset.2 ⟨hvalue, List.nil_subset _⟩
  cases frame with
  | item goal scope values rest =>
    refine hresumes rfl rfl (.turns ⟨fun v hv => ?_, fun _ h => h, nofun, rfl, rfl⟩)
    rcases List.mem_append.1 hv with hv | hv
    · exact hheld (List.mem_append_left _ hv)
    · rcases List.mem_append.1 hv with hv | hv
      · exact hheld (List.mem_append_right _ hv)
      · exact honly hv
  | key scope table keySpan entry rest =>
    exact hresumes rfl rfl (.asks rfl ⟨fun _ h => h, fun _ h => h, nofun, rfl, rfl⟩)
  | entry scope table key keySpan rest =>
    exact hresumes rfl rfl (.inserts key keySpan rest rfl
      (List.subset_cons_of_subset _ (List.subset_cons_self _ _)) hvalue)
  | operand op span => exact hresumes rfl rfl (.answers (.unary op value span))
  | left op scope right span =>
    exact hresumes rfl rfl (.asks rfl ⟨honly, nofun, nofun, rfl, rfl⟩)
  | right op left span => exact hresumes rfl rfl (.answers (.binary op left value span))
  | assigned scope target => exact hresumes rfl rfl (goes_beginTarget rfl hvalue target)
  | assignedTarget scope assigned key span =>
    refine hresumes rfl rfl (.asks rfl ⟨?_, nofun, nofun, rfl, rfl⟩)
    exact List.cons_subset.2 ⟨List.mem_cons_of_mem _ List.mem_cons_self, honly⟩
  | assignedKey assigned target span => exact .assignsElement
  | indexed scope key span =>
    exact hresumes rfl rfl (.asks rfl ⟨honly, nofun, nofun, rfl, rfl⟩)
  | index target span =>
    exact hresumes rfl rfl (goes_index (hheld List.mem_cons_self) value span)
  | callee scope arguments span callee =>
    exact hresumes rfl rfl (.turns ⟨honly, fun _ h => h, nofun, rfl, rfl⟩)
  | binding scope ident => exact hresumes rfl rfl (goes_define rfl ident.name hvalue)
  | returning scope =>
    exact hresumes rfl rfl (.leavesReturn rfl rfl (List.mem_cons_of_mem _ hvalue))
  | condition scope consequence alternative =>
    refine hresumes rfl rfl ?_
    unfold resume
    dsimp only
    split
    · exact .beginsBlock consequence rfl rfl
    · cases alternative with
      | some block => exact .beginsBlock block rfl rfl
      | none => exact goes_give (.inl rfl)
  | nodes scope rest =>
    refine hresumes rfl rfl ?_
    unfold resume
    dsimp only
    split
    · exact goes_give (.inl rfl)
    · exact .turns ⟨List.nil_subset _, fun _ h => h, fun _ => rfl, rfl, rfl⟩
  | body scope => exact .leavesBody
  | topLevel scope rest => exact .endsTopLevel

/-- **Every step does one of these.** -/
theorem does_of_step {m m' : Machine} (h : m.step = some m') : Does m m' := by
  obtain ⟨task, frames, store, active⟩ := m
  cases task with
  | expression scope e =>
    cases h
    exact .goes .task (goes_beginExpression rfl e)
  | items goal scope values rest =>
    cases rest with
    | nil =>
      cases h
      exact .goes .task (goes_fulfil fun _ hv => hv)
    | cons e rest =>
      cases h
      exact .goes .task (.asks rfl ⟨fun _ hv => hv, fun _ hs => hs, nofun, rfl, rfl⟩)
  | pairs scope table rest =>
    cases rest with
    | nil =>
      cases h
      exact .goes .task (.answers (.map fun _ hv => hv))
    | cons pair rest =>
      cases h
      exact .goes .task (.asks rfl ⟨fun _ hv => hv, fun _ hs => hs, nofun, rfl, rfl⟩)
  | call function arguments span callee =>
    cases h
    exact does_beginCall function arguments span callee
  | node scope n =>
    cases h
    exact .goes .task (goes_beginNode rfl rfl n)
  | nodes scope rest =>
    cases rest with
    | nil =>
      cases h
      exact .goes .task (goes_give (.inl rfl))
    | cons n rest =>
      cases h
      exact .goes .task (.beginsNode rfl rfl)
  | topLevel scope last rest =>
    cases rest with
    | nil =>
      cases h
      exact .goes .task (.turns ⟨fun _ hv => hv, nofun, nofun, rfl, rfl⟩)
    | cons n rest =>
      cases h
      exact .beginsTopLevel
  | give value =>
    -- No frame is left: the machine has come to its answer and takes no step.
    cases frames with
    | nil => cases h
    | cons frame frames =>
      cases h
      exact does_resume frame value
  | fail error =>
    cases frames with
    | nil => cases h
    | cons frame frames =>
      cases h
      exact .drops

end Machine

end Script
