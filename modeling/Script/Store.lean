import Script.Heap
import Script.Syntax
import Script.Table

/-!
# The store

All that a running script keeps: the scopes with their bindings, the contents of arrays and maps,
and the functions made so far. Scopes form a tree by their parents, and a name is looked up along
the chain of scopes from the innermost outwards.

A `return` leaves its value pending in a scope until it is taken. A block passes it on to the scope
around it; a function's scope or a root keeps it. That scope is the *boundary* of all the blocks
that pass to it.

* `Store.chain`: a scope and all scopes around it.
* `Store.lookup?`, `Store.define`, `Store.assign?`: names.
* `Store.setReturn`, `Store.pendingReturn?`, `Store.clearReturn`: returns.
* `Store.elements`, `Store.table`: the contents of arrays and maps.
-/

namespace Script

/-! ### Objects -/

/-- Where a scope comes from. -/
inductive ScopeKind where
  | root
  | function
  | block
deriving DecidableEq, Repr

/-- A scope: its kind, the scope around it, its bindings, and the value of a pending return. -/
structure Scope where
  kind : ScopeKind
  parent : Option (Ref .scope)
  bindings : Assoc String Value
  returned : Option Value

/-- Whether a scope passes a return on to the scope around it. -/
def Scope.passesReturn (scope : Scope) : Bool :=
  scope.kind == .block && scope.parent.isSome

/-- A function: the names of its parameters, its body, and the scope that it was made in. -/
structure Closure where
  parameters : List String
  body : Block
  scope : Ref .scope

/-- All scopes, arrays, maps and functions. -/
structure Store where
  scopes : Heap .scope Scope
  arrays : Heap .array (List Value)
  maps : Heap .map Table
  closures : Heap .closure Closure

namespace Store

/-- The store without objects. -/
def empty : Store :=
  ⟨∅, ∅, ∅, ∅⟩

/-! ### Making objects -/

/-- A new scope without bindings. -/
def addScope (store : Store) (kind : ScopeKind) (parent : Option (Ref .scope)) :
    Ref .scope × Store :=
  (store.scopes.fresh, { store with scopes := store.scopes.alloc ⟨kind, parent, ∅, none⟩ })

/-- A new root scope. -/
def addRoot (store : Store) : Ref .scope × Store :=
  store.addScope .root none

/-- A new array. -/
def addArray (store : Store) (elements : List Value) : Value × Store :=
  (.array store.arrays.fresh, { store with arrays := store.arrays.alloc elements })

/-- A new map. -/
def addMap (store : Store) (table : Table) : Value × Store :=
  (.map store.maps.fresh, { store with maps := store.maps.alloc table })

/-- A new function. -/
def addClosure (store : Store) (closure : Closure) : Value × Store :=
  (.function store.closures.fresh, { store with closures := store.closures.alloc closure })

/-! ### Arrays and maps -/

/-- The elements of an array. -/
def elements (store : Store) (ref : Ref .array) : List Value :=
  (store.arrays.get? ref).getD []

/-- The contents of a map. -/
def table (store : Store) (ref : Ref .map) : Table :=
  (store.maps.get? ref).getD ∅

/-- Replaces one element of an array. -/
def setElement (store : Store) (ref : Ref .array) (position : Nat) (value : Value) : Store :=
  { store with arrays := store.arrays.modify ref (·.set position value) }

/-- Changes the contents of a map. -/
def modifyTable (store : Store) (ref : Ref .map) (f : Table → Table) : Store :=
  { store with maps := store.maps.modify ref f }

/-! ### Names -/

/-- At most `n` scopes from one outwards. -/
def chainWithin (scopes : Heap .scope Scope) : Nat → Ref .scope → List (Ref .scope)
  | 0, _ => []
  | n + 1, ref =>
    match (scopes.get? ref).bind Scope.parent with
    | some parent => ref :: chainWithin scopes n parent
    | none => [ref]

/-- A scope and all scopes around it, from the innermost outwards. A scope is made after the one
around it, so its index bounds the length of the chain. -/
def chain (store : Store) (ref : Ref .scope) : List (Ref .scope) :=
  chainWithin store.scopes (ref.index + 1) ref

/-- The value of a name in one scope alone. -/
def binding? (store : Store) (ref : Ref .scope) (name : String) : Option Value :=
  (store.scopes.get? ref).bind (·.bindings.get? name)

/-- The innermost scope that binds a name, seen from a scope. -/
def owner? (store : Store) (ref : Ref .scope) (name : String) : Option (Ref .scope) :=
  (store.chain ref).find? fun r => (store.binding? r name).isSome

/-- The value of a name, seen from a scope. -/
def lookup? (store : Store) (ref : Ref .scope) (name : String) : Option Value :=
  (store.owner? ref name).bind (store.binding? · name)

/-- Binds a name in one scope alone, over any binding further out. -/
def define (store : Store) (ref : Ref .scope) (name : String) (value : Value) : Store :=
  { store with
    scopes := store.scopes.modify ref fun scope =>
      { scope with bindings := scope.bindings.insert name value } }

/-- Gives a name another value in the scope that binds it, if any does. -/
def assign? (store : Store) (ref : Ref .scope) (name : String) (value : Value) : Option Store :=
  (store.owner? ref name).map (store.define · name value)

/-! ### Returns -/

/-- The scope that keeps the returns of a scope: the innermost that does not pass them on. -/
def boundary (store : Store) (ref : Ref .scope) : Ref .scope :=
  ((store.chain ref).find? fun r => !(store.scopes.get? r).any Scope.passesReturn).getD ref

/-- Puts a value, or nothing, into the place of the pending return of a scope. -/
def putReturn (store : Store) (ref : Ref .scope) (value : Option Value) : Store :=
  { store with
    scopes := store.scopes.modify (store.boundary ref) fun scope =>
      { scope with returned := value } }

/-- Leaves a value pending. -/
def setReturn (store : Store) (ref : Ref .scope) (value : Value) : Store :=
  store.putReturn ref (some value)

/-- The value that is pending for a scope. -/
def pendingReturn? (store : Store) (ref : Ref .scope) : Option Value :=
  (store.scopes.get? (store.boundary ref)).bind (·.returned)

/-- Whether a return is pending for a scope. -/
def isReturning (store : Store) (ref : Ref .scope) : Bool :=
  (store.pendingReturn? ref).isSome

/-- Takes the pending value away. -/
def clearReturn (store : Store) (ref : Ref .scope) : Store :=
  store.putReturn ref none

end Store

end Script
