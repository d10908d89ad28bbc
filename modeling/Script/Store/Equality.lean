import Script.Store

/-!
# Equality of values

Arrays are equal if their elements are, in order; maps if they have the same keys with equal values;
functions if they are the same object. An array or map is equal to itself without a look at what it
holds.

* `Store.equal`, `Store.equalTables`: equality of values and of the contents of maps.
-/

namespace Script

/-- Whether two lists match element by element. -/
def matchLists (same : Value → Value → Bool) : List Value → List Value → Bool
  | [], [] => true
  | a :: as, b :: bs => same a b && matchLists same as bs
  | _, _ => false

/-- Whether two tables match: as many keys, and each key of the one has a matching value in the
other. -/
def matchTables (same : Value → Value → Bool) (a b : Table) : Bool :=
  a.size == b.size && a.pairs.all fun (key, value) =>
    match b.get? key with
    | some other => same value other
    | none => false

namespace Store

/-- Whether two values are equal, seen through no more than `n` pairs of containers inside one
another. -/
def equalWithin (store : Store) : Nat → Value → Value → Bool
  | 0, .array _, .array _ => true
  | 0, .map _, .map _ => true
  | n + 1, .array a, .array b =>
    a == b || matchLists (equalWithin store n) (store.elements a) (store.elements b)
  | n + 1, .map a, .map b =>
    a == b || matchTables (equalWithin store n) (store.table a) (store.table b)
  | _, a, b => a == b
termination_by structural n => n

/-- The number of pairs of containers, and one more. Pairs that are compared inside one another
all differ unless a container contains itself, so comparing never goes deeper. -/
def equalityDepth (store : Store) : Nat :=
  let containers := store.arrays.size + store.maps.size
  containers * containers + 1

/-- Whether two values are equal. -/
def equal (store : Store) (a b : Value) : Bool :=
  store.equalWithin store.equalityDepth a b

/-- Whether two tables are equal. -/
def equalTables (store : Store) (a b : Table) : Bool :=
  matchTables store.equal a b

end Store

end Script
