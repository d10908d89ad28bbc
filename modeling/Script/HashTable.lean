import Script.Table
import Script.Store.Equality

/-!
# Tables in buckets

A map may be stored in buckets. A key is hashed, and the keys of one type that have the same hash
share a bucket, which is searched for a key that is equal. A table that remembers the order of its
keys needs no hashes (`Table`); a table in buckets lists its pairs in no particular order.

The hashes are a parameter: nothing that is read from a table depends on them.

* `HashTable.insert`, `HashTable.get`: storing and reading, with the refusal;
* `HashTable.Lists`: the pairs of a table, bucket by bucket.
-/

namespace Script

/-- The address of a bucket: the type of the keys in it, and their hash. -/
structure HashKey where
  type : ValueType
  hash : UInt64
deriving DecidableEq, Repr

/-- The bucket that a value belongs to as a key, or the refusal of the value. -/
def Value.hashKey (hash : Key → UInt64) (v : Value) : Except NotHashable HashKey :=
  match v.key? with
  | some key => .ok ⟨v.type, hash key⟩
  | none => .error ⟨v.type⟩

/-- A table in buckets, with the number of its pairs. -/
structure HashTable where
  buckets : Assoc HashKey (List (Value × Value))
  len : Nat

namespace HashTable

/-- The table without pairs. -/
def empty : HashTable :=
  ⟨∅, 0⟩

/-- Whether a table has no pairs, by their number. -/
def isEmpty (t : HashTable) : Bool :=
  t.len == 0

/-- The bucket at an address. -/
def bucket (t : HashTable) (address : HashKey) : List (Value × Value) :=
  (t.buckets.get? address).getD []

/-- The pairs of a table, bucket by bucket, the buckets in any order. -/
def Lists (t : HashTable) (pairs : List (Value × Value)) : Prop :=
  ∃ order : List (HashKey × List (Value × Value)),
    order.Perm t.buckets.pairs ∧ pairs = order.flatMap Prod.snd

section

variable (store : Store) (key : Value)

/-- The value under the first key in a bucket that is equal to a key. -/
def search (bucket : List (Value × Value)) : Option Value :=
  (bucket.find? fun pair => store.equal pair.1 key).map Prod.snd

/-- A bucket with the value replaced under the first key that is equal to a key. The key in the
bucket stays. -/
def overwrite (value : Value) : List (Value × Value) → List (Value × Value)
  | [] => []
  | (existing, old) :: rest =>
    if store.equal existing key then (existing, value) :: rest
    else (existing, old) :: overwrite value rest

end

variable (hash : Key → UInt64)

/-- Stores a value under a key, and gives the value that was there before. -/
def insert (store : Store) (t : HashTable) (key value : Value) :
    Except NotHashable (Option Value) × HashTable :=
  match key.hashKey hash with
  | .error refusal => (.error refusal, t)
  | .ok address =>
    let bucket := t.bucket address
    match search store key bucket with
    | some old =>
      (.ok (some old),
        { t with buckets := t.buckets.insert address (overwrite store key value bucket) })
    | none => (.ok none, ⟨t.buckets.insert address (bucket ++ [(key, value)]), t.len + 1⟩)

/-- The value under a key, if there is one. -/
def get (store : Store) (t : HashTable) (key : Value) : Except NotHashable (Option Value) :=
  match key.hashKey hash with
  | .error refusal => .error refusal
  | .ok address => .ok (search store key (t.bucket address))

end HashTable

/-- A value stored under a key, and the store in which the keys are compared. -/
structure Insertion where
  store : Store
  key : Value
  value : Value

/-- The table in buckets that insertions lead to, one after another and refused ones among
them. -/
def HashTable.ofInsertions (hash : Key → UInt64) (log : List Insertion) : HashTable :=
  log.foldl (fun t i => (t.insert hash i.store i.key i.value).2) empty

namespace Table

/-- The table in order after an insertion, which is the same if the key is refused. -/
def afterInsertion (table : Table) (i : Insertion) : Table :=
  match table.insert i.key i.value with
  | .ok (_, after) => after
  | .error _ => table

/-- The table in order that insertions lead to. -/
def ofInsertions (log : List Insertion) : Table :=
  log.foldl afterInsertion ∅

end Table

end Script
