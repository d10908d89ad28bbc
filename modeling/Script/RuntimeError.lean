import Script.Store.Text

/-!
# Errors of evaluation

Why an evaluation failed, where, and in what words.
-/

namespace Script

/-- The greatest number of calls of a script's functions that may be active at once. -/
def maxCalls : Nat := 10000

/-- Why an evaluation failed. -/
inductive RuntimeCause where
  /-- A name is bound nowhere. -/
  | unboundName (name : String)
  /-- The operands of an operator differ in type. -/
  | typeMismatch (op : BinaryOp) (left right : ValueType)
  /-- An operator does not go with the type of its operands. -/
  | unsupportedOperator (op : BinaryOp) (left right : ValueType)
  /-- An operator does not go with the type of its one operand. -/
  | unsupportedOperand (op : UnaryOp) (operand : ValueType)
  /-- A function is called with too few or too many arguments. -/
  | wrongArity (expected got : Nat)
  /-- What is called is no function. -/
  | notCallable (type : ValueType)
  /-- An array has no element at a position. -/
  | indexOutOfBounds (index : Integer) (length : Nat)
  /-- A position in an array is no integer. -/
  | nonIntegerIndex (type : ValueType)
  /-- What is indexed is neither an array nor a map. -/
  | notIndexable (type : ValueType)
  /-- A map has no value under a key. -/
  | keyNotFound (key : Key)
  /-- A value may not be a key. -/
  | keyNotHashable (type : ValueType)
  /-- What is assigned to is neither a name nor an element; it is told as text. -/
  | invalidTarget (target : String)
  /-- A number is divided by zero. -/
  | divisionByZero
  /-- A result is no integer of the language. -/
  | integerOverflow
  /-- A built-in function does not go with the type of its argument. -/
  | unsupportedArgument (function : Builtin) (type : ValueType)
  /-- Too many calls are active. -/
  | callDepthExceeded
deriving DecidableEq, Repr

namespace RuntimeCause

/-- The headline of an error of evaluation. -/
def headline : RuntimeCause → String
  | unboundName _ => "Unknown identifier"
  | typeMismatch _ _ _ => "Type error"
  | unsupportedOperator _ _ _ => "Type error"
  | unsupportedOperand _ _ => "Type error"
  | unsupportedArgument _ _ => "Type error"
  | wrongArity _ _ => "Wrong number of arguments"
  | notCallable _ => "Not callable"
  | indexOutOfBounds _ _ => "Invalid index"
  | nonIntegerIndex _ => "Invalid index"
  | notIndexable _ => "Invalid index"
  | keyNotFound _ => "Invalid map key"
  | keyNotHashable _ => "Invalid map key"
  | invalidTarget _ => "Invalid assignment"
  | divisionByZero => "Arithmetic error"
  | integerOverflow => "Arithmetic error"
  | callDepthExceeded => "Stack overflow"

/-- An error of evaluation on one line. -/
def message : RuntimeCause → String
  | unboundName name => "identifier not found: " ++ name
  | typeMismatch op left right =>
    "type mismatch: " ++ left.name ++ " " ++ op.symbol.text ++ " " ++ right.name
  | unsupportedOperator op left right =>
    "unknown operator: " ++ left.name ++ " " ++ op.symbol.text ++ " " ++ right.name
  | unsupportedOperand op operand => "unknown operator: " ++ op.symbol.text ++ operand.name
  | wrongArity expected got =>
    "wrong number of arguments: expected " ++ toString expected ++ ", got " ++ toString got
  | notCallable type => "not a function: " ++ type.name
  | indexOutOfBounds index length =>
    "index out of bounds: the length is " ++ toString length ++ " but the index is " ++ index.text
  | nonIntegerIndex type => "array index must be an integer, got " ++ type.name
  | notIndexable type => "index operator not supported: " ++ type.name
  | keyNotFound key => "key not found: " ++ key.text
  | keyNotHashable type => "unusable as map key: " ++ type.name
  | invalidTarget target => "invalid assignment target: " ++ target
  | divisionByZero => "division by zero"
  | integerOverflow => "integer overflow"
  | unsupportedArgument function type =>
    "argument to `" ++ function.name ++ "` not supported, got " ++ type.name
  | callDepthExceeded => "maximum call depth of " ++ toString maxCalls ++ " exceeded"

end RuntimeCause

/-- An error of evaluation: its cause and the stretch of text at fault. -/
structure RuntimeError where
  cause : RuntimeCause
  span : Span
deriving DecidableEq, Repr

/-- The value that tells of an error. -/
def RuntimeError.toValue (error : RuntimeError) : Value :=
  .error error.cause.message

end Script
