import Script.Operation

/-!
# Evaluation

A node is evaluated in a scope. It gives a value or an error, and changes the store on the way;
changes made before an error stay. A statement gives null. A `return` leaves its value pending, and
every list of nodes stops as soon as a return is pending for its scope.

Evaluation recurses on the syntax tree. Only a call leaves the tree: it goes on with the body of a
function that the store holds. So the evaluation of a tree is given, as an argument, what a call of
a function does, and calls themselves recurse on the number of calls that may still become active
inside one another. Both recursions are structural, so every evaluation ends.

* `Eval.expression`, `Eval.node`, `Eval.nodes`: trees, with calls as an argument.
* `Eval.callWithin`: calls, within a number of active ones.
* `Eval.program`: a whole program.
-/

namespace Script

/-- An evaluation: it changes the store and gives a result or an error. -/
abbrev Eval := EStateM RuntimeError Store

/-- What a call of a function does, given the arguments and the span of the call. -/
abbrev Caller := Ref .closure → List Value → Span → Eval Value

namespace Eval

/-! ### Steps -/

/-- Fails. -/
def fail {α : Type} (cause : RuntimeCause) (span : Span) : Eval α :=
  throw ⟨cause, span⟩

/-- A result that is known already, or its error, which is told at a span. -/
def lift {α : Type} (span : Span) : Except RuntimeCause α → Eval α
  | .ok a => pure a
  | .error cause => fail cause span

/-- The value of a name: of its binding, or else the built-in function of that name. -/
def resolve (scope : Ref .scope) (ident : Ident) : Eval Value := do
  match (← get).lookup? scope ident.name with
  | some value => return value
  | none =>
    match Builtin.ofName? ident.name with
    | some b => return .builtin b
    | none => fail (.unboundName ident.name) ident.span

/-- Gives a bound name another value. Built-in functions are not bound. -/
def assignName (scope : Ref .scope) (ident : Ident) (value : Value) : Eval Unit := do
  match (← get).owner? scope ident.name with
  | some owner => modify (·.define owner ident.name value)
  | none => fail (.unboundName ident.name) ident.span

/-- Replaces an element, or stores under a key. -/
def assignElement (target key value : Value) (span : Span) : Eval Unit := do
  let place ← lift span ((← get).place target key)
  modify (·.write place value)

/-- Calls a built-in function. -/
def callBuiltin (b : Builtin) (arguments : List Value) (span : Span) : Eval Value := do
  match ← lift span (b.result (← get) arguments) with
  | .value value => return value
  | .newArray elements => modifyGet (·.addArray elements)

/-- A new scope inside another. -/
def inner (kind : ScopeKind) (scope : Ref .scope) : Eval (Ref .scope) :=
  modifyGet (·.addScope kind (some scope))

/-- Takes the pending return away, and gives its value. -/
def takeReturn (scope : Ref .scope) : Eval (Option Value) := do
  match (← get).pendingReturn? scope with
  | some value =>
    modify (·.clearReturn scope)
    return some value
  | none => return none

/-- Stores under a key of a table that is being made. -/
def insertPair (table : Table) (key value : Value) (span : Span) : Eval Table :=
  match table.insert key value with
  | .ok (_, table) => pure table
  | .error refusal => fail (.keyNotHashable refusal.type) span

/-- Calls a value, which has to be a function. `callee` is where it was read. -/
def callValue (call : Caller) (function : Value) (arguments : List Value) (span callee : Span) :
    Eval Value :=
  match function with
  | .function ref => call ref arguments span
  | .builtin b => callBuiltin b arguments span
  | other => fail (.notCallable other.type) callee

/-! ### Trees -/

mutual

/-- Evaluates an expression. Operands come in the order in which they are written, but the value
of an assignment comes before its target. -/
def expression (call : Caller) (scope : Ref .scope) : Expr → Eval Value
  | .name ident => resolve scope ident
  | .integer value _ => return .integer value
  | .boolean value _ => return .boolean value
  | .string value _ => return .string value
  | .array elements _ => do
    let values ← expressions call scope elements
    modifyGet (·.addArray values)
  | .map entries _ => do
    let table ← pairs call scope ∅ entries
    modifyGet (·.addMap table)
  | .unary op operand span => do
    let value ← expression call scope operand
    lift span (op.apply value)
  | .binary op left right span => do
    let a ← expression call scope left
    let b ← expression call scope right
    lift span (op.apply a b)
  | .assign (.name ident) value _ => do
    let v ← expression call scope value
    assignName scope ident v
    return v
  | .assign (.index target key span) value _ => do
    let v ← expression call scope value
    let t ← expression call scope target
    let k ← expression call scope key
    assignElement t k v span
    return v
  | .assign target value _ => do
    let _ ← expression call scope value
    fail (.invalidTarget target.text) target.span
  | .index target key span => do
    let t ← expression call scope target
    let k ← expression call scope key
    lift span ((← get).index t k)
  | .function parameters body _ =>
    modifyGet (·.addClosure ⟨parameters.map (·.name), body, scope⟩)
  | .call callee arguments span => do
    let function ← expression call scope callee
    let values ← expressions call scope arguments
    callValue call function values span callee.span
termination_by structural e => e

/-- Evaluates expressions one after another. -/
def expressions (call : Caller) (scope : Ref .scope) : List Expr → Eval (List Value)
  | [] => return []
  | e :: rest => do
    let value ← expression call scope e
    let values ← expressions call scope rest
    return value :: values
termination_by structural es => es

/-- Evaluates the pairs of a map one after another, and stores each before the next. -/
def pairs (call : Caller) (scope : Ref .scope) (table : Table) : List (Expr × Expr) → Eval Table
  | [] => return table
  | (key, value) :: rest => do
    let k ← expression call scope key
    let v ← expression call scope value
    let table ← insertPair table k v key.span
    pairs call scope table rest
termination_by structural entries => entries

/-- Evaluates a node. -/
def node (call : Caller) (scope : Ref .scope) : Node → Eval Value
  | .binding ident value _ => do
    let v ← expression call scope value
    modify (·.define scope ident.name v)
    return .null
  | .returning none _ => do
    modify (·.setReturn scope .null)
    return .null
  | .returning (some value) _ => do
    let v ← expression call scope value
    modify (·.setReturn scope v)
    return .null
  | .conditional condition consequence none _ => do
    let c ← expression call scope condition
    if c.isTruthy then
      block call (← inner .block scope) consequence
    return .null
  | .conditional condition consequence (some alternative) _ => do
    let c ← expression call scope condition
    if c.isTruthy then
      block call (← inner .block scope) consequence
    else
      block call (← inner .block scope) alternative
    return .null
  | .expression value => expression call scope value
termination_by structural node => node

/-- Evaluates nodes one after another, until a return is pending. -/
def nodes (call : Caller) (scope : Ref .scope) : List Node → Eval Unit
  | [] => return ()
  | n :: rest => do
    let _ ← node call scope n
    if (← get).isReturning scope then
      return ()
    else
      nodes call scope rest
termination_by structural ns => ns

/-- Evaluates a block in a scope that was made for it. -/
def block (call : Caller) (scope : Ref .scope) : Block → Eval Unit
  | ⟨ns, _⟩ => nodes call scope ns
termination_by structural b => b

end

/-! ### Calls -/

/-- The scope of a call, with the parameters bound to the arguments. -/
def enter (closure : Closure) (arguments : List Value) : Eval (Ref .scope) := do
  let scope ← inner .function closure.scope
  modify fun store => (closure.parameters.zip arguments).foldl
    (fun store (name, value) => store.define scope name value) store
  return scope

/-- The function of a reference, if it takes as many arguments as are given. -/
def callee (ref : Ref .closure) (arguments : List Value) (span : Span) : Eval Closure := do
  match (← get).closures.get? ref with
  | none => fail (.notCallable .function) span
  | some closure =>
    if closure.parameters.length = arguments.length then return closure
    else fail (.wrongArity closure.parameters.length arguments.length) span

/-- Calls a function where at most `n` calls may become active inside one another, this one
included. It gives the value of the return that stopped its body, or null. -/
def callWithin : Nat → Caller
  | 0, ref, arguments, span => do
    let _ ← callee ref arguments span
    fail .callDepthExceeded span
  | n + 1, ref, arguments, span => do
    let closure ← callee ref arguments span
    let scope ← enter closure arguments
    block (callWithin n) scope closure.body
    return (← takeReturn scope).getD .null
termination_by structural n => n

/-! ### Programs -/

/-- Evaluates nodes of a program, the last value before them being `last`. A return that is
pending after a node ends the program with its value. -/
def topLevel (call : Caller) (scope : Ref .scope) (last : Value) : List Node → Eval Value
  | [] => return last
  | n :: rest => do
    let value ← node call scope n
    match ← takeReturn scope with
    | some returned => return returned
    | none => topLevel call scope value rest

/-- Evaluates a program in a scope. Its value is that of its last node, or the one it
returns. -/
def program (scope : Ref .scope) (program : Program) : Eval Value :=
  topLevel (callWithin maxCalls) scope .null program.nodes

end Eval

end Script
