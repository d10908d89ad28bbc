import Script.RuntimeError

/-!
# What operators do to values

The operators, indexing, and the built-in functions, each on values that are evaluated already. None
of them calls back into a script.

* `UnaryOp.apply`, `BinaryOp.apply`: the operators. Arithmetic is exact or an error.
* `Store.index`, `Store.place`, `Store.write`: reading and replacing an element.
* `Builtin.result`: the built-in functions. They change nothing; at most they ask for a new array.
-/

namespace Script

/-! ### Operators -/

/-- The integer of an exact result, or the error of overflow. -/
def exactly (n : Int) : Except RuntimeCause Value :=
  match Integer.ofInt? n with
  | some value => .ok (.integer value)
  | none => .error .integerOverflow

/-- An operator in front of a value. -/
def UnaryOp.apply : UnaryOp → Value → Except RuntimeCause Value
  | .plus, .integer value => .ok (.integer value)
  | .minus, .integer value => exactly (-Int64.toInt value)
  | .not, .boolean value => .ok (.boolean (!value))
  | op, operand => .error (.unsupportedOperand op operand.type)

/-- An operator between integers. Division drops the fraction. -/
def BinaryOp.onIntegers (op : BinaryOp) (left right : Integer) : Except RuntimeCause Value :=
  let a := Int64.toInt left
  let b := Int64.toInt right
  match op with
  | .add => exactly (a + b)
  | .subtract => exactly (a - b)
  | .multiply => exactly (a * b)
  | .divide => if b = 0 then .error .divisionByZero else exactly (a.tdiv b)
  | .less => .ok (.boolean (a < b))
  | .greater => .ok (.boolean (b < a))
  | .equal => .ok (.boolean (a == b))
  | .notEqual => .ok (.boolean (a != b))

/-- An operator between truth values. -/
def BinaryOp.onBooleans (op : BinaryOp) (left right : Bool) : Except RuntimeCause Value :=
  match op with
  | .equal => .ok (.boolean (left == right))
  | .notEqual => .ok (.boolean (left != right))
  | op => .error (.unsupportedOperator op .boolean .boolean)

/-- An operator between strings. -/
def BinaryOp.onStrings (op : BinaryOp) (left right : String) : Except RuntimeCause Value :=
  match op with
  | .add => .ok (.string (left ++ right))
  | .equal => .ok (.boolean (left == right))
  | .notEqual => .ok (.boolean (left != right))
  | op => .error (.unsupportedOperator op .string .string)

/-- An operator between values. -/
def BinaryOp.apply (op : BinaryOp) (left right : Value) : Except RuntimeCause Value :=
  match left, right with
  | .integer a, .integer b => op.onIntegers a b
  | .boolean a, .boolean b => op.onBooleans a b
  | .string a, .string b => op.onStrings a b
  | a, b =>
    if a.type = b.type then .error (.unsupportedOperator op a.type b.type)
    else .error (.typeMismatch op a.type b.type)

/-! ### Indexing -/

/-- The position that a value denotes in an array of a length. -/
def Value.position (key : Value) (length : Nat) : Except RuntimeCause Nat :=
  match key with
  | .integer index =>
    let i := Int64.toInt index
    if 0 ≤ i ∧ i < length then .ok i.toNat else .error (.indexOutOfBounds index length)
  | other => .error (.nonIntegerIndex other.type)

/-- A place that an index points to: a position in an array, or a key of a map. -/
inductive Place where
  | element (ref : Ref .array) (position : Nat)
  | entry (ref : Ref .map) (key : Key)
deriving DecidableEq, Repr

namespace Store

/-- The place that a target and an index point to. A position lies inside its array; a key need
not be in its map. -/
def place (store : Store) (target key : Value) : Except RuntimeCause Place :=
  match target with
  | .array ref => (key.position (store.elements ref).length).map (.element ref)
  | .map ref =>
    match key.key? with
    | some k => .ok (.entry ref k)
    | none => .error (.keyNotHashable key.type)
  | other => .error (.notIndexable other.type)

/-- Reads an element of an array or a map. -/
def index (store : Store) (target key : Value) : Except RuntimeCause Value :=
  match store.place target key with
  | .ok (.element ref position) => .ok ((store.elements ref).getD position .null)
  | .ok (.entry ref k) =>
    match (store.table ref).get? k with
    | some value => .ok value
    | none => .error (.keyNotFound k)
  | .error cause => .error cause

/-- Puts a value into a place. -/
def write (store : Store) (place : Place) (value : Value) : Store :=
  match place with
  | .element ref position => store.setElement ref position value
  | .entry ref key => store.modifyTable ref fun table => Assoc.insert table key value

end Store

/-! ### Built-in functions -/

namespace Builtin

/-- The number of arguments of a built-in function. -/
def arity : Builtin → Nat
  | len => 1
  | first => 1
  | last => 1
  | rest => 1
  | push => 2

/-- What a built-in function gives: a value, or the elements of a new array. -/
inductive Result where
  | value (value : Value)
  | newArray (elements : List Value)
deriving DecidableEq, Repr

/-- The length of a value: of an array in elements, of a string in bytes. -/
def length (store : Store) (argument : Value) : Except RuntimeCause Value :=
  match argument with
  | .array ref => exactly (store.elements ref).length
  | .string value => exactly value.utf8ByteSize
  | other => .error (.unsupportedArgument .len other.type)

/-- The elements of an argument that has to be an array. -/
def elementsOf (b : Builtin) (store : Store) (argument : Value) :
    Except RuntimeCause (List Value) :=
  match argument with
  | .array ref => .ok (store.elements ref)
  | other => .error (.unsupportedArgument b other.type)

/-- All elements but the first, as a new array; of an empty array, null. -/
def tail : List Value → Result
  | [] => .value .null
  | _ :: elements => .newArray elements

/-- A built-in function on its arguments, whose number counts before their types. -/
def result (b : Builtin) (store : Store) (arguments : List Value) : Except RuntimeCause Result :=
  match b, arguments with
  | len, [a] => (length store a).map .value
  | first, [a] => (first.elementsOf store a).map fun elements =>
      .value (elements.head?.getD .null)
  | last, [a] => (last.elementsOf store a).map fun elements =>
      .value (elements.getLast?.getD .null)
  | rest, [a] => (rest.elementsOf store a).map tail
  | push, [a, x] => (push.elementsOf store a).map fun elements => .newArray (elements ++ [x])
  | b, arguments => .error (.wrongArity b.arity arguments.length)

end Builtin

end Script
