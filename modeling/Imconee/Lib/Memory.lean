import Mathlib.Data.List.Basic
import Mathlib.Tactic.Common

/-!
# Flat arrays

An array is a function from indices to cells. Reading copies a run of consecutive cells
out of it and writing copies a list over such a run; the bounds of the array are the
business of its user.
-/

set_option autoImplicit false

namespace Imconee.Lib

universe u

/-- The cells of an array. -/
def Memory (α : Type u) := ℕ → α

namespace Memory

variable {α : Type u}

/-- Every cell holds the same value. -/
def fill (value : α) : Memory α := fun _ => value

/-- Copy `count` cells out, from `offset` on. -/
def read (memory : Memory α) (offset count : ℕ) : List α :=
  (List.range count).map fun index => memory (offset + index)

/-- Copy a list over the cells from `offset` on. -/
def write (memory : Memory α) (offset : ℕ) (values : List α) : Memory α := fun index =>
  if offset ≤ index then (values[index - offset]?).getD (memory index) else memory index

@[simp]
theorem length_read (memory : Memory α) (offset count : ℕ) :
    (memory.read offset count).length = count := by
  simp [read]

@[simp]
theorem read_zero (memory : Memory α) (offset : ℕ) : memory.read offset 0 = [] := rfl

theorem getElem?_read (memory : Memory α) (offset count index : ℕ) :
    (memory.read offset count)[index]? =
      if index < count then some (memory (offset + index)) else none := by
  by_cases inside : index < count <;> simp [read, inside]

theorem read_add (memory : Memory α) (offset first second : ℕ) :
    memory.read offset (first + second) =
      memory.read offset first ++ memory.read (offset + first) second := by
  simp [read, List.range_add, Nat.add_assoc]

theorem take_read (memory : Memory α) (offset count taken : ℕ) :
    (memory.read offset count).take taken = memory.read offset (min taken count) := by
  apply List.ext_getElem?
  intro index
  simp only [List.getElem?_take, getElem?_read]
  by_cases inside : index < taken
  · have bound : index < min taken count ↔ index < count := by omega
    simp only [inside, bound, if_true]
  · have bound : ¬index < min taken count := by omega
    simp only [inside, bound, if_false]

theorem drop_read (memory : Memory α) (offset count dropped : ℕ) :
    (memory.read offset count).drop dropped =
      memory.read (offset + dropped) (count - dropped) := by
  apply List.ext_getElem?
  intro index
  simp only [List.getElem?_drop, getElem?_read, Nat.add_assoc]
  by_cases inside : dropped + index < count
  · simp [inside, show index < count - dropped by omega]
  · simp [inside, show ¬index < count - dropped by omega]

theorem read_write (memory : Memory α) (offset : ℕ) (values : List α) :
    (memory.write offset values).read offset values.length = values := by
  apply List.ext_getElem?
  intro index
  rw [getElem?_read]
  by_cases inside : index < values.length
  · simp [write, inside]
  · simp [inside]

theorem read_congr {memory memory' : Memory α} {offset count : ℕ}
    (same : ∀ index < count, memory' (offset + index) = memory (offset + index)) :
    memory'.read offset count = memory.read offset count := by
  apply List.map_congr_left
  intro index inside
  exact same index (List.mem_range.mp inside)

theorem write_of_outside (memory : Memory α) {offset index : ℕ} {values : List α}
    (outside : index < offset ∨ offset + values.length ≤ index) :
    memory.write offset values index = memory index := by
  rw [write]
  split
  · rw [List.getElem?_eq_none (by omega), Option.getD_none]
  · rfl

theorem read_write_of_disjoint (memory : Memory α) (offset start count : ℕ) (values : List α)
    (disjoint : start + count ≤ offset ∨ offset + values.length ≤ start) :
    (memory.write offset values).read start count = memory.read start count := by
  apply List.ext_getElem?
  intro index
  simp only [getElem?_read]
  by_cases inside : index < count
  · simp only [inside, if_true, write]
    by_cases below : offset ≤ start + index
    · have beyond : values.length ≤ start + index - offset := by omega
      simp [below, List.getElem?_eq_none beyond]
    · simp [below]
  · simp [inside]

theorem read_write_append (memory : Memory α) (offset count : ℕ) (values : List α) :
    (memory.write (offset + count) values).read offset (count + values.length) =
      memory.read offset count ++ values := by
  rw [read_add, read_write, read_write_of_disjoint _ _ _ _ _ (Or.inl (Nat.le_refl _))]

end Memory

end Imconee.Lib
