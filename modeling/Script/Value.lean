import Script.Heap
import Script.Integer

/-!
# Values

What an expression evaluates to. Arrays, maps and functions are references to shared objects;
everything else is held by the value itself. An error value carries the message of an evaluation
that failed; it is handed to whoever runs a script and never met by a script itself.

* `Value.type`: the type of a value.
* `Value.key?`: the key that a value is, if it may be one.
-/

namespace Script

/-- The type of a value. -/
inductive ValueType where
  | null
  | integer
  | boolean
  | string
  | array
  | map
  | function
  | builtin
  | error
deriving DecidableEq, Repr

/-- The name of a type. -/
def ValueType.name : ValueType → String
  | null => "null"
  | integer => "integer"
  | boolean => "boolean"
  | string => "string"
  | array => "array"
  | map => "map"
  | function => "function"
  | builtin => "builtin"
  | error => "error"

/-- The functions that every script knows. -/
inductive Builtin where
  | len
  | first
  | last
  | rest
  | push
deriving DecidableEq, Repr

namespace Builtin

/-- The name of a built-in function. -/
def name : Builtin → String
  | len => "len"
  | first => "first"
  | last => "last"
  | rest => "rest"
  | push => "push"

/-- All built-in functions. -/
def all : List Builtin :=
  [len, first, last, rest, push]

/-- The built-in function of a name, if there is one. -/
def ofName? (name : String) : Option Builtin :=
  all.find? (·.name == name)

theorem mem_all (b : Builtin) : b ∈ all := by
  cases b <;> simp [all]

end Builtin

/-- A value. -/
inductive Value where
  | null
  | integer (value : Integer)
  | boolean (value : Bool)
  | string (value : String)
  | array (ref : Ref .array)
  | map (ref : Ref .map)
  | function (ref : Ref .closure)
  | builtin (function : Builtin)
  | error (message : String)
deriving DecidableEq, Repr

instance : Inhabited Value := ⟨.null⟩

/-- A key of a map: an integer, a truth value or a string. Keys of different types differ. -/
inductive Key where
  | integer (value : Integer)
  | boolean (value : Bool)
  | string (value : String)
deriving DecidableEq, Repr

/-- The value that a key is. -/
def Key.toValue : Key → Value
  | integer value => .integer value
  | boolean value => .boolean value
  | string value => .string value

namespace Value

/-- The type of a value. -/
def type : Value → ValueType
  | null => .null
  | integer _ => .integer
  | boolean _ => .boolean
  | string _ => .string
  | array _ => .array
  | map _ => .map
  | function _ => .function
  | builtin _ => .builtin
  | error _ => .error

/-- The key that a value is. Only integers, truth values and strings may be keys. -/
def key? : Value → Option Key
  | integer value => some (.integer value)
  | boolean value => some (.boolean value)
  | string value => some (.string value)
  | _ => none

/-- What counts as true in a condition: everything but null and false. -/
def isTruthy : Value → Bool
  | null => false
  | boolean value => value
  | _ => true

/-- A value is a key exactly if it is the value of one. -/
theorem key?_eq_some_iff {v : Value} {k : Key} : v.key? = some k ↔ v = k.toValue := by
  cases v <;> cases k <;> simp [key?, Key.toValue]

end Value

end Script
