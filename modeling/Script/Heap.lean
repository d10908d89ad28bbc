/-!
# Heaps

Objects that are shared and changed in place live in heaps and are spoken of by references. A
reference carries the kind of object it refers to, so a reference to one kind cannot be followed in
the heap of another. Objects are never removed: a heap only grows.

* `Heap.alloc`, `Heap.get?`, `Heap.modify`: a new object, reading one, changing one.
* `Heap.get?_alloc`, `Heap.get?_modify`: what reading gives afterwards.
-/

namespace Script

/-- The kinds of shared objects. -/
inductive ObjectKind where
  | scope
  | array
  | map
  | closure
deriving DecidableEq, Repr

/-- A reference to an object of a kind. -/
structure Ref (kind : ObjectKind) where
  index : Nat
deriving DecidableEq, Repr

/-- The objects of one kind, in the order in which they were made. -/
structure Heap (kind : ObjectKind) (α : Type) where
  cells : Array α

namespace Heap

variable {kind : ObjectKind} {α : Type}

/-- The heap without objects. -/
def empty : Heap kind α :=
  ⟨#[]⟩

instance : EmptyCollection (Heap kind α) := ⟨empty⟩

/-- The number of objects. -/
def size (heap : Heap kind α) : Nat :=
  heap.cells.size

/-- The object that a reference refers to, if there is one. -/
def get? (heap : Heap kind α) (ref : Ref kind) : Option α :=
  heap.cells[ref.index]?

/-- The reference that the next object will get. -/
def fresh (heap : Heap kind α) : Ref kind :=
  ⟨heap.cells.size⟩

/-- Adds an object, under the fresh reference. -/
def alloc (heap : Heap kind α) (object : α) : Heap kind α :=
  ⟨heap.cells.push object⟩

/-- Changes an object; nothing happens if there is none. -/
def modify (heap : Heap kind α) (ref : Ref kind) (f : α → α) : Heap kind α :=
  ⟨heap.cells.modify ref.index f⟩

/-! ### Laws -/

@[simp] theorem size_alloc (heap : Heap kind α) (object : α) :
    (heap.alloc object).size = heap.size + 1 := by
  simp [alloc, size]

@[simp] theorem size_modify (heap : Heap kind α) (ref : Ref kind) (f : α → α) :
    (heap.modify ref f).size = heap.size := by
  simp [modify, size]

/-- **A new object is found under the fresh reference**, and all others where they were. -/
theorem get?_alloc (heap : Heap kind α) (object : α) (ref : Ref kind) :
    (heap.alloc object).get? ref = if ref = heap.fresh then some object else heap.get? ref := by
  obtain ⟨i⟩ := ref
  simp only [alloc, get?, fresh, Array.getElem?_push, Ref.mk.injEq]

/-- **A changed object is found where the old one was**, and all others are as they were. -/
theorem get?_modify (heap : Heap kind α) (ref other : Ref kind) (f : α → α) :
    (heap.modify ref f).get? other =
      if ref = other then (heap.get? ref).map f else heap.get? other := by
  obtain ⟨i⟩ := ref
  obtain ⟨j⟩ := other
  simp only [modify, get?, Array.getElem?_modify, Ref.mk.injEq]
  by_cases h : i = j <;> simp [h]

end Heap

end Script
