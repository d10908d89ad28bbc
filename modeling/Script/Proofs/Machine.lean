import Script.Eval

/-!
# Evaluation in single steps

A machine that evaluates a tree step by step. It holds what it does next (its *task*), what waits
for the value of that (its *frames*, the innermost first), the store, and how many calls are active.
A step either looks at one construct of the tree, or hands a value to the innermost frame, or drops
a frame on the way of an error. Nothing in a step bounds how many steps there are: a body of a
function comes from the store, and the only thing that keeps calls from going on for ever is the
count of active ones, which goes up where a body is entered and down where it is left, by a value
or by an error.

* `Machine.step`: one step, or nothing if the machine has come to its result.
* `Machine.answer`: the machine that has come to a result.
-/

namespace Script

/-! ### Machines -/

/-- What the values of a list of expressions are for: the elements of a new array, or the
arguments of a call. -/
inductive Goal where
  | array
  | call (function : Value) (span callee : Span)

/-- What a machine does next. -/
inductive Task where
  /-- Evaluates an expression. -/
  | expression (scope : Ref .scope) (e : Expr)
  /-- Evaluates the expressions that are left of a list, the values of those before being known. -/
  | items (goal : Goal) (scope : Ref .scope) (values : List Value) (rest : List Expr)
  /-- Evaluates the pairs that are left of a map. -/
  | pairs (scope : Ref .scope) (table : Table) (rest : List (Expr × Expr))
  /-- Calls a value. -/
  | call (function : Value) (arguments : List Value) (span callee : Span)
  /-- Evaluates a node. -/
  | node (scope : Ref .scope) (n : Node)
  /-- Evaluates the nodes that are left of a block. -/
  | nodes (scope : Ref .scope) (rest : List Node)
  /-- Evaluates the nodes that are left of a program. -/
  | topLevel (scope : Ref .scope) (last : Value) (rest : List Node)
  /-- Hands a value to the innermost frame. -/
  | give (value : Value)
  /-- Fails through all frames. -/
  | fail (error : RuntimeError)

/-- What waits for a value. -/
inductive Frame where
  /-- An item of a list. -/
  | item (goal : Goal) (scope : Ref .scope) (values : List Value) (rest : List Expr)
  /-- The key of a pair. -/
  | key (scope : Ref .scope) (table : Table) (keySpan : Span) (value : Expr)
      (rest : List (Expr × Expr))
  /-- The value of a pair. -/
  | entry (scope : Ref .scope) (table : Table) (key : Value) (keySpan : Span)
      (rest : List (Expr × Expr))
  /-- The operand of an operator in front of it. -/
  | operand (op : UnaryOp) (span : Span)
  /-- The left operand of an operator. -/
  | left (op : BinaryOp) (scope : Ref .scope) (right : Expr) (span : Span)
  /-- The right operand of an operator. -/
  | right (op : BinaryOp) (left : Value) (span : Span)
  /-- The value of an assignment. -/
  | assigned (scope : Ref .scope) (target : Expr)
  /-- What an element is assigned in. -/
  | assignedTarget (scope : Ref .scope) (value : Value) (key : Expr) (span : Span)
  /-- Where an element is assigned. -/
  | assignedKey (value target : Value) (span : Span)
  /-- What is indexed. -/
  | indexed (scope : Ref .scope) (key : Expr) (span : Span)
  /-- An index. -/
  | index (target : Value) (span : Span)
  /-- What is called. -/
  | callee (scope : Ref .scope) (arguments : List Expr) (span callee : Span)
  /-- The value of a `let`. -/
  | binding (scope : Ref .scope) (ident : Ident)
  /-- The value of a `return`. -/
  | returning (scope : Ref .scope)
  /-- The condition of an `if`. -/
  | condition (scope : Ref .scope) (consequence : Block) (alternative : Option Block)
  /-- A node of a block. -/
  | nodes (scope : Ref .scope) (rest : List Node)
  /-- The body of a function. -/
  | body (scope : Ref .scope)
  /-- A node of a program. -/
  | topLevel (scope : Ref .scope) (rest : List Node)

/-- A machine: its task, its frames, the store, and the number of active calls. -/
structure Machine where
  task : Task
  frames : List Frame
  store : Store
  active : Nat

/-- The number of active calls that a frame stands for. -/
def Frame.calls : Frame → Nat
  | .body _ => 1
  | _ => 0

namespace Machine

open Eval (resolve assignName assignElement callBuiltin inner takeReturn insertPair lift enter)

/-! ### Steps -/

section Step

variable (frames : List Frame) (active : Nat)

/-- The machine that goes on with what an evaluation gives, or fails with its error. -/
def proceed {α : Type} (next : α → Store → Machine) :
    EStateM.Result RuntimeError Store α → Machine
  | .ok a store => next a store
  | .error error store => ⟨.fail error, frames, store, active⟩

/-- The machine that has come to a result. -/
def answer : EStateM.Result RuntimeError Store Value → Machine :=
  proceed frames active fun value store => ⟨.give value, frames, store, active⟩

/-- Begins an expression. -/
def beginExpression (scope : Ref .scope) (store : Store) : Expr → Machine
  | .name ident => answer frames active (resolve scope ident store)
  | .integer value _ => ⟨.give (.integer value), frames, store, active⟩
  | .boolean value _ => ⟨.give (.boolean value), frames, store, active⟩
  | .string value _ => ⟨.give (.string value), frames, store, active⟩
  | .array elements _ => ⟨.items .array scope [] elements, frames, store, active⟩
  | .map entries _ => ⟨.pairs scope ∅ entries, frames, store, active⟩
  | .unary op operand span =>
    ⟨.expression scope operand, .operand op span :: frames, store, active⟩
  | .binary op left right span =>
    ⟨.expression scope left, .left op scope right span :: frames, store, active⟩
  | .assign target value _ =>
    ⟨.expression scope value, .assigned scope target :: frames, store, active⟩
  | .index target key span =>
    ⟨.expression scope target, .indexed scope key span :: frames, store, active⟩
  | .function parameters body _ =>
    let (value, store) := store.addClosure ⟨parameters.map (·.name), body, scope⟩
    ⟨.give value, frames, store, active⟩
  | .call callee arguments span =>
    ⟨.expression scope callee, .callee scope arguments span callee.span :: frames, store, active⟩

/-- Begins a node. -/
def beginNode (scope : Ref .scope) (store : Store) : Node → Machine
  | .binding ident value _ =>
    ⟨.expression scope value, .binding scope ident :: frames, store, active⟩
  | .returning none _ => ⟨.give .null, frames, store.setReturn scope .null, active⟩
  | .returning (some value) _ =>
    ⟨.expression scope value, .returning scope :: frames, store, active⟩
  | .conditional condition consequence alternative _ =>
    ⟨.expression scope condition, .condition scope consequence alternative :: frames, store,
      active⟩
  | .expression value => ⟨.expression scope value, frames, store, active⟩

/-- Does what a list of values is for. -/
def fulfil (goal : Goal) (values : List Value) (store : Store) : Machine :=
  match goal with
  | .array =>
    let (value, store) := store.addArray values
    ⟨.give value, frames, store, active⟩
  | .call function span callee => ⟨.call function values span callee, frames, store, active⟩

/-- Enters the body of a function, unless too many calls are active. -/
def enterBody (closure : Closure) (arguments : List Value) (span : Span) (store : Store) :
    Machine :=
  if maxCalls ≤ active then
    ⟨.fail ⟨.callDepthExceeded, span⟩, frames, store, active⟩
  else
    proceed frames active (fun scope store =>
      ⟨.nodes scope closure.body.nodes, .body scope :: frames, store, active + 1⟩)
      (enter closure arguments store)

/-- Begins a call. -/
def beginCall (function : Value) (arguments : List Value) (span callee : Span) (store : Store) :
    Machine :=
  match function with
  | .function ref =>
    proceed frames active
      (fun closure store => enterBody frames active closure arguments span store)
      (Eval.callee ref arguments span store)
  | .builtin b => answer frames active (callBuiltin b arguments span store)
  | other => ⟨.fail ⟨.notCallable other.type, callee⟩, frames, store, active⟩

/-- Begins a block in a scope of its own. -/
def beginBlock (scope : Ref .scope) (block : Block) (store : Store) : Machine :=
  let (scope, store) := store.addScope .block (some scope)
  ⟨.nodes scope block.nodes, frames, store, active⟩

/-- Assigns a value, or begins the target that it is assigned to. -/
def beginTarget (scope : Ref .scope) (value : Value) (store : Store) : Expr → Machine
  | .name ident => answer frames active ((do assignName scope ident value; return value) store)
  | .index target key span =>
    ⟨.expression scope target, .assignedTarget scope value key span :: frames, store, active⟩
  | target => ⟨.fail ⟨.invalidTarget target.text, target.span⟩, frames, store, active⟩

/-- Goes on with a value that a frame has waited for, the frame being taken away. -/
def resume (frame : Frame) (value : Value) (store : Store) : Machine :=
  match frame with
  | .item goal scope values rest =>
    ⟨.items goal scope (values ++ [value]) rest, frames, store, active⟩
  | .key scope table keySpan entry rest =>
    ⟨.expression scope entry, .entry scope table value keySpan rest :: frames, store, active⟩
  | .entry scope table key keySpan rest =>
    proceed frames active (fun table store => ⟨.pairs scope table rest, frames, store, active⟩)
      (insertPair table key value keySpan store)
  | .operand op span => answer frames active (lift span (op.apply value) store)
  | .left op scope right span =>
    ⟨.expression scope right, .right op value span :: frames, store, active⟩
  | .right op left span => answer frames active (lift span (op.apply left value) store)
  | .assigned scope target => beginTarget frames active scope value store target
  | .assignedTarget scope assigned key span =>
    ⟨.expression scope key, .assignedKey assigned value span :: frames, store, active⟩
  | .assignedKey assigned target span =>
    answer frames active ((do assignElement target value assigned span; return assigned) store)
  | .indexed scope key span =>
    ⟨.expression scope key, .index value span :: frames, store, active⟩
  | .index target span => answer frames active (lift span (store.index target value) store)
  | .callee scope arguments span callee =>
    ⟨.items (.call value span callee) scope [] arguments, frames, store, active⟩
  | .binding scope ident => ⟨.give .null, frames, store.define scope ident.name value, active⟩
  | .returning scope => ⟨.give .null, frames, store.setReturn scope value, active⟩
  | .condition scope consequence alternative =>
    if value.isTruthy then beginBlock frames active scope consequence store
    else match alternative with
      | some block => beginBlock frames active scope block store
      | none => ⟨.give .null, frames, store, active⟩
  | .nodes scope rest =>
    if store.isReturning scope then ⟨.give .null, frames, store, active⟩
    else ⟨.nodes scope rest, frames, store, active⟩
  | .body scope =>
    proceed frames (active - 1)
      (fun returned store => ⟨.give (returned.getD .null), frames, store, active - 1⟩)
      (takeReturn scope store)
  | .topLevel scope rest =>
    proceed frames active (fun returned store =>
      match returned with
      | some value => ⟨.give value, frames, store, active⟩
      | none => ⟨.topLevel scope value rest, frames, store, active⟩)
      (takeReturn scope store)

end Step

/-- One step, if the machine has not come to its result. -/
def step : Machine → Option Machine
  | ⟨.expression scope e, frames, store, active⟩ =>
    some (beginExpression frames active scope store e)
  | ⟨.items goal _ values [], frames, store, active⟩ =>
    some (fulfil frames active goal values store)
  | ⟨.items goal scope values (e :: rest), frames, store, active⟩ =>
    some ⟨.expression scope e, .item goal scope values rest :: frames, store, active⟩
  | ⟨.pairs _ table [], frames, store, active⟩ =>
    let (value, store) := store.addMap table
    some ⟨.give value, frames, store, active⟩
  | ⟨.pairs scope table ((key, value) :: rest), frames, store, active⟩ =>
    some ⟨.expression scope key, .key scope table key.span value rest :: frames, store, active⟩
  | ⟨.call function arguments span callee, frames, store, active⟩ =>
    some (beginCall frames active function arguments span callee store)
  | ⟨.node scope n, frames, store, active⟩ => some (beginNode frames active scope store n)
  | ⟨.nodes _ [], frames, store, active⟩ => some ⟨.give .null, frames, store, active⟩
  | ⟨.nodes scope (n :: rest), frames, store, active⟩ =>
    some ⟨.node scope n, .nodes scope rest :: frames, store, active⟩
  | ⟨.topLevel _ last [], frames, store, active⟩ => some ⟨.give last, frames, store, active⟩
  | ⟨.topLevel scope _ (n :: rest), frames, store, active⟩ =>
    some ⟨.node scope n, .topLevel scope rest :: frames, store, active⟩
  | ⟨.give value, frame :: frames, store, active⟩ => some (resume frames active frame value store)
  | ⟨.fail error, frame :: frames, store, active⟩ =>
    some ⟨.fail error, frames, store, active - frame.calls⟩
  | ⟨.give _, [], _, _⟩ => none
  | ⟨.fail _, [], _, _⟩ => none

/-- The machine before it evaluates a node. -/
def ofNode (scope : Ref .scope) (n : Node) (store : Store) (active : Nat) : Machine :=
  ⟨.node scope n, [], store, active⟩

/-- The machine before it evaluates a program. -/
def ofProgram (scope : Ref .scope) (p : Program) (store : Store) (active : Nat) : Machine :=
  ⟨.topLevel scope .null p.nodes, [], store, active⟩

end Machine

end Script
