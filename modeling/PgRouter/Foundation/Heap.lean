import Mathlib.Data.List.Basic

/-!
# A heap

Objects are allocated one after the other, each at a new address, and freed. Several owners may keep the
address of one object; after one of them has freed it, the others read nothing there any more.
-/

namespace PgRouter.Foundation

universe u

/-- The object at each address, `none` once it is freed. -/
abbrev Heap (α : Type u) := List (Option α)

namespace Heap

variable {α : Type u} {h : Heap α} {a b : ℕ}

/-- The address of a new object. -/
def new (h : Heap α) : ℕ := h.length

/-- The heap with a new object. -/
def alloc (h : Heap α) (x : α) : Heap α := h ++ [some x]

/-- `free`, also of `NULL`. -/
def free (h : Heap α) : Option ℕ → Heap α
  | none => h
  | some a => h.set a none

/-- What is found at an address. -/
def read (h : Heap α) (a : ℕ) : Option α := h[a]?.join

@[simp] theorem read_alloc_new (h : Heap α) (x : α) : (h.alloc x).read h.new = some x := by
  rw [read, alloc, new, List.getElem?_concat_length]
  rfl

theorem read_alloc_of_lt (x : α) (ha : a < h.length) : (h.alloc x).read a = h.read a := by
  rw [read, alloc, List.getElem?_append_left ha, read]

theorem lt_of_read {x : α} (ha : h.read a = some x) : a < h.length := by
  by_contra hge
  rw [read, List.getElem?_eq_none (Nat.le_of_not_lt hge)] at ha
  cases ha

@[simp] theorem read_free_self (h : Heap α) (a : ℕ) : (h.free (some a)).read a = none := by
  rw [read, free, List.getElem?_set_self']
  cases h[a]? <;> rfl

@[simp] theorem length_free (h : Heap α) (p : Option ℕ) : (h.free p).length = h.length := by
  cases p with
  | none => rfl
  | some a => exact List.length_set

end Heap

end PgRouter.Foundation
