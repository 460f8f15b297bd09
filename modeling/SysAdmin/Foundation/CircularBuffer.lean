import Mathlib.Data.List.Basic

/-!
# Circular buffers

A circular buffer has a capacity. Items that are inserted at its end when it is full overwrite
the oldest ones; what is inserted after the capacity has been raised far enough is added.
-/

namespace SysAdmin

/-- A circular buffer, its oldest item first. -/
structure CircularBuffer (α : Type*) where
  capacity : ℕ
  items : List α
  length_le : items.length ≤ capacity
  deriving DecidableEq

namespace CircularBuffer

variable {α : Type*} (b : CircularBuffer α) (xs : List α) (n : ℕ)

/-- A buffer without items. -/
def empty (capacity : ℕ) : CircularBuffer α := ⟨capacity, [], Nat.zero_le _⟩

/-- Changes the capacity; the newest items that are too many are lost. -/
def setCapacity : CircularBuffer α := ⟨n, b.items.take n, List.length_take_le _ _⟩

/-- Inserts items at the end, where they overwrite the oldest ones. -/
def insertEnd : CircularBuffer α where
  capacity := b.capacity
  items := (b.items ++ xs).drop ((b.items ++ xs).length - b.capacity)
  length_le := by
    rw [List.length_drop]
    omega

/-- Erases the oldest items. -/
def eraseFirst : CircularBuffer α where
  capacity := b.capacity
  items := b.items.drop n
  length_le := by
    have := b.length_le
    rw [List.length_drop]
    omega

/-- Raises the capacity to what is needed for the items, and inserts them. -/
def growInsert : CircularBuffer α :=
  let newSize := xs.length + b.items.length
  if newSize > b.capacity then (b.setCapacity newSize).insertEnd xs else b.insertEnd xs

@[simp] theorem items_empty : (empty n : CircularBuffer α).items = [] := rfl

@[simp] theorem items_eraseFirst : (b.eraseFirst n).items = b.items.drop n := rfl

theorem items_insertEnd (h : b.items.length + xs.length ≤ b.capacity) :
    (b.insertEnd xs).items = b.items ++ xs := by
  have hfits : (b.items ++ xs).length - b.capacity = 0 := by
    rw [List.length_append]
    omega
  exact (congrArg ((b.items ++ xs).drop ·) hfits).trans List.drop_zero

/-- Nothing is overwritten in a buffer that grows. -/
@[simp] theorem items_growInsert : (b.growInsert xs).items = b.items ++ xs := by
  rw [growInsert]
  split
  · have hkept : (b.setCapacity (xs.length + b.items.length)).items = b.items :=
      List.take_of_length_le (Nat.le_add_left _ _)
    rw [items_insertEnd, hkept]
    rw [hkept, Nat.add_comm]
    exact Nat.le_refl _
  · exact items_insertEnd _ _ (by omega)

end CircularBuffer

end SysAdmin
