import Mathlib.Data.List.Basic

/-!
# Heaps

A heap of values of one type, for programs that share and overwrite what pointers point
to. A `Ref` is a position; `alloc` gives out the next one, so a new reference is never
one that is in use, and nothing is ever freed.
-/

namespace Framework

/-- A pointer. -/
abbrev Ref := ℕ

/-- The values allocated so far, by reference. -/
structure Heap (α : Type) where
  cells : List α

namespace Heap

variable {α : Type}

/-- The heap without values. -/
def empty : Heap α := ⟨[]⟩

/-- What a pointer points to; `none` if it has not been allocated. -/
def read (h : Heap α) (r : Ref) : Option α := h.cells[r]?

/-- Overwrite what a pointer points to. -/
def write (h : Heap α) (r : Ref) (a : α) : Heap α := ⟨h.cells.set r a⟩

/-- The reference the next allocation gives out. -/
def fresh (h : Heap α) : Ref := h.cells.length

/-- Allocate a value at the fresh reference. -/
def alloc (h : Heap α) (a : α) : Heap α := ⟨h.cells ++ [a]⟩

@[simp] theorem read_fresh (h : Heap α) : h.read h.fresh = none :=
  List.getElem?_eq_none (Nat.le_refl _)

theorem ne_fresh_of_read {h : Heap α} {r : Ref} {a : α} (hr : h.read r = some a) :
    r ≠ h.fresh := by
  rintro rfl
  exact absurd hr (by simp)

@[simp] theorem read_alloc_fresh (h : Heap α) (a : α) : (h.alloc a).read h.fresh = some a :=
  List.getElem?_concat_length

theorem read_alloc_of_ne (h : Heap α) (a : α) {r : Ref} (hr : r ≠ h.fresh) :
    (h.alloc a).read r = h.read r := by
  rcases Nat.lt_or_ge r h.cells.length with hlt | hge
  · exact List.getElem?_append_left hlt
  · have hgt : h.cells.length < r := Nat.lt_of_le_of_ne hge (Ne.symm hr)
    have hnone : h.read r = none := List.getElem?_eq_none hge
    rw [hnone]
    exact List.getElem?_eq_none (by rw [alloc, List.length_append, List.length_singleton]; omega)

/-- Allocation keeps what is there. -/
theorem read_alloc_of_read {h : Heap α} {r : Ref} {a : α} (hr : h.read r = some a) (b : α) :
    (h.alloc b).read r = some a :=
  (read_alloc_of_ne h b (ne_fresh_of_read hr)).trans hr

theorem read_write_self {h : Heap α} {r : Ref} {a : α} (hr : h.read r = some a) (b : α) :
    (h.write r b).read r = some b := by
  have hlt : r < h.cells.length := (List.getElem?_eq_some_iff.mp hr).1
  exact List.getElem?_set_self hlt

theorem read_write_of_ne (h : Heap α) (b : α) {r r' : Ref} (hne : r' ≠ r) :
    (h.write r b).read r' = h.read r' :=
  List.getElem?_set_ne (Ne.symm hne)

end Heap

end Framework
