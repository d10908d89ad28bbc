import Script.Eval
import Script.Parser

/-!
# Sessions

A text can be evaluated node by node while it is being read: each node is evaluated before the next
is parsed. An error of evaluation becomes the value of its node, and the session goes on; an error
of syntax is reported. A return at top level has no function to stop, so it is dropped.

* `Session.next`: the next node.
* `Session.run`: all nodes, up to the end of the text or its first error of syntax.
-/

namespace Script

/-- A text that is being evaluated: the scope, what is left of the text, and the store. -/
structure Session where
  scope : Ref .scope
  parser : ParserState
  store : Store

namespace Session

/-- A session at the beginning of a text. -/
def ofText (scope : Ref .scope) (store : Store) (text : String) : Session :=
  ⟨scope, .ofStream (.ofText text), store⟩

/-- Evaluates the next node, if there is one. -/
def next : Session → Except ParseError (Option Value) × Session
  | ⟨scope, parser, store⟩ =>
    match Parse.nextNode maxNesting parser with
    | .error error parser => (.error error, ⟨scope, parser, store⟩)
    | .ok none parser => (.ok none, ⟨scope, parser, store⟩)
    | .ok (some node) parser =>
      match Eval.node (Eval.callWithin maxCalls) scope node store with
      | .ok value store => (.ok (some value), ⟨scope, parser, store.clearReturn scope⟩)
      | .error error store =>
        (.ok (some error.toValue), ⟨scope, parser, store.clearReturn scope⟩)

/-- What a session has shown: what was observed of each value, the error of syntax that ended
it, if any, and the store after it. -/
structure Outcome (α : Type) where
  observed : List α
  error : Option ParseError
  store : Store

/-- Evaluates at most `n` nodes, observing each value in the store right after it. -/
def runWithin {α : Type} (observe : Store → Value → α) : Nat → Session → Outcome α
  | 0, session => ⟨[], none, session.store⟩
  | n + 1, session =>
    match session.next with
    | (.error error, after) => ⟨[], some error, after.store⟩
    | (.ok none, after) => ⟨[], none, after.store⟩
    | (.ok (some value), after) =>
      let seen := observe after.store value
      let outcome := runWithin observe n after
      { outcome with observed := seen :: outcome.observed }

/-- Evaluates all nodes. Each takes a lexeme, which bounds their number. -/
def run {α : Type} (observe : Store → Value → α) (session : Session) : Outcome α :=
  runWithin observe (session.parser.lexemes.length + 1) session

end Session

end Script
