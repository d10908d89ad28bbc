import Script.Assoc
import Script.Value

/-!
# Tables

The contents of a map: values under keys. A value that may not be a key is refused by its type.

* `Table.insert`, `Table.get`: storing and reading, with the refusal.
-/

namespace Script

/-- The contents of a map. -/
abbrev Table := Assoc Key Value

/-- The refusal of a value as a key: its type may not be one. -/
structure NotHashable where
  type : ValueType
deriving DecidableEq, Repr

/-- The words of a refusal. -/
def NotHashable.message (refusal : NotHashable) : String :=
  "a value of type " ++ refusal.type.name ++ " cannot be used as a map key"

/-- The key that a value is, or the refusal of the value. -/
def Value.key (v : Value) : Except NotHashable Key :=
  match v.key? with
  | some key => .ok key
  | none => .error ⟨v.type⟩

namespace Table

/-- Stores a value under a key, and gives the value that was there before. -/
def insert (table : Table) (key value : Value) : Except NotHashable (Option Value × Table) :=
  match key.key with
  | .ok k => .ok (table.get? k, Assoc.insert table k value)
  | .error refusal => .error refusal

/-- The value under a key, if there is one. -/
def get (table : Table) (key : Value) : Except NotHashable (Option Value) :=
  match key.key with
  | .ok k => .ok (table.get? k)
  | .error refusal => .error refusal

end Table

end Script
