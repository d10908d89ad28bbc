import Script.Eval

/-!
# Evaluation in direct style

Evaluation without pending returns. What a node comes to says by itself whether it returned
(`Flow`), so nothing has to be left in a scope and nothing has to be looked up there: a list of
nodes stops at the first that returns, a call gives what its body returned, and a program ends with
what its first returning node returned. Expressions are those of `Eval.expression`, which meets
returns only through the calls that it is given.
-/

namespace Script

/-- **How a node or a list of nodes ends**: normally, with what it is worth, or by a return. -/
inductive Flow where
  | normal (value : Value)
  | returned (value : Value)
deriving DecidableEq, Repr

namespace Eval.Direct

mutual

/-- Evaluates a node. A statement that does not return is worth null. -/
def node (call : Caller) (scope : Ref .scope) : Node → Eval Flow
  | .binding ident value _ => do
    let v ← expression call scope value
    modify (·.define scope ident.name v)
    return .normal .null
  | .returning none _ => return .returned .null
  | .returning (some value) _ => do
    let v ← expression call scope value
    return .returned v
  | .conditional condition consequence none _ => do
    let c ← expression call scope condition
    if c.isTruthy then
      block call (← inner .block scope) consequence
    else
      return .normal .null
  | .conditional condition consequence (some alternative) _ => do
    let c ← expression call scope condition
    if c.isTruthy then
      block call (← inner .block scope) consequence
    else
      block call (← inner .block scope) alternative
  | .expression value => do
    let v ← expression call scope value
    return .normal v
termination_by structural node => node

/-- Evaluates nodes one after another, up to the first that returns. -/
def nodes (call : Caller) (scope : Ref .scope) : List Node → Eval Flow
  | [] => return .normal .null
  | n :: rest => do
    match ← node call scope n with
    | .returned value => return .returned value
    | .normal _ => nodes call scope rest
termination_by structural ns => ns

/-- Evaluates a block in a scope that was made for it. -/
def block (call : Caller) (scope : Ref .scope) : Block → Eval Flow
  | ⟨ns, _⟩ => nodes call scope ns
termination_by structural b => b

end

/-- What a call gives when its body has ended: what the body returned, or null. -/
def result : Flow → Value
  | .returned value => value
  | .normal _ => .null

/-- Calls a function where at most `n` calls may become active inside one another, this one
included. -/
def callWithin : Nat → Caller
  | 0, ref, arguments, span => do
    let _ ← callee ref arguments span
    fail .callDepthExceeded span
  | n + 1, ref, arguments, span => do
    let closure ← callee ref arguments span
    let scope ← enter closure arguments
    let flow ← block (callWithin n) scope closure.body
    return result flow
termination_by structural n => n

/-- Evaluates nodes of a program, the last value before them being `last`, up to the first that
returns. -/
def topLevel (call : Caller) (scope : Ref .scope) (last : Value) : List Node → Eval Value
  | [] => return last
  | n :: rest => do
    match ← node call scope n with
    | .returned value => return value
    | .normal value => topLevel call scope value rest

/-- Evaluates a program in a scope. Its value is that of its last node, or the one it
returns. -/
def program (scope : Ref .scope) (program : Program) : Eval Value :=
  topLevel (callWithin maxCalls) scope .null program.nodes

end Eval.Direct

end Script
