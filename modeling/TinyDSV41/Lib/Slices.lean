/-
**A list in slices of a fixed size.**

* `flatMap_slice` — the first slices, one after the other, are a beginning of the list.
* `flatMap_slice_count` — all of them are the list.
* `length_slice` — every slice but the last one is full.
* `grid_div`, `grid_mod`, `grid_inj` — rows and columns of the places of a grid.
* `zip_flatMap` — two lists made of equally long pieces, side by side.
-/

import Mathlib.Data.List.Basic
import Mathlib.Tactic.Ring

namespace TinyDSV41.Lib

open List

variable {α : Type}

def slice (size : ℕ) (list : List α) (index : ℕ) : List α := (list.drop (index * size)).take size

/-- How many slices a list of a length has. -/
def sliceCount (size length : ℕ) : ℕ := (length + size - 1) / size

variable {size length index : ℕ} {list : List α}

theorem length_slice (size : ℕ) (list : List α) (index : ℕ) :
    (slice size list index).length = min size (list.length - index * size) := by
  rw [slice, length_take, length_drop]

variable {width column : ℕ}

theorem grid_div {row : ℕ} (small : column < width) : (row * width + column) / width = row := by
  rw [Nat.mul_comm, Nat.mul_add_div (Nat.zero_lt_of_lt small), Nat.div_eq_of_lt small, Nat.add_zero]

theorem grid_mod {row : ℕ} (small : column < width) : (row * width + column) % width = column := by
  rw [Nat.mul_comm, Nat.mul_add_mod, Nat.mod_eq_of_lt small]

theorem grid_inj {row other next : ℕ} (here : column < width) (there : next < width)
    (same : row * width + column = other * width + next) : row = other ∧ column = next := by
  have rows := congrArg (· / width) same
  have columns := congrArg (· % width) same
  simp only [grid_div here, grid_div there, grid_mod here, grid_mod there] at rows columns
  exact ⟨rows, columns⟩

theorem length_flatten_each {rows : List (List α)} (each : ∀ row ∈ rows, row.length = width) :
    rows.flatten.length = rows.length * width := by
  induction rows with
  | nil => rw [flatten_nil, length_nil, length_nil, Nat.zero_mul]
  | cons row rows known =>
    obtain ⟨here, later⟩ := forall_mem_cons.mp each
    rw [flatten_cons, length_append, here, known later, length_cons, Nat.succ_mul, Nat.add_comm]

theorem flatMap_slice (size : ℕ) (list : List α) (count : ℕ) :
    (range count).flatMap (slice size list) = list.take (count * size) := by
  induction count with
  | zero => simp
  | succ count known =>
    rw [range_succ, flatMap_append, known, flatMap_singleton, slice, Nat.succ_mul, take_add]

theorem slice_getElem? {place : ℕ} (inside : place < size) : (slice size list index)[place]? = list[index * size + place]? := by
  unfold slice
  rw [getElem?_take_of_lt inside, getElem?_drop]

theorem slice_map_range (value : ℕ → α) (within : (index + 1) * size ≤ length) :
    slice size ((range length).map value) index = (range size).map fun place => value (index * size + place) := by
  rw [Nat.succ_mul] at within
  refine ext_getElem? fun place => ?_
  by_cases inside : place < size
  · rw [slice_getElem? inside, getElem?_map, getElem?_map, getElem?_range (by omega),
      getElem?_range inside]
    rfl
  · rw [getElem?_eq_none (by rw [length_slice]; omega), getElem?_eq_none (by simpa using inside)]

theorem lt_sliceCount_iff (positive : 0 < size) :
    index < sliceCount size length ↔ index * size < length := by
  unfold sliceCount
  rw [Nat.lt_div_iff_mul_lt positive]
  constructor <;> intro below
  all_goals
    have := Nat.mul_comm size index
    omega

theorem le_sliceCount_mul (positive : 0 < size) : length ≤ sliceCount size length * size := by
  by_contra short
  exact absurd ((lt_sliceCount_iff positive).mpr (not_le.mp short)) (lt_irrefl _)

theorem flatMap_slice_count (positive : 0 < size) (list : List α) :
    (range (sliceCount size list.length)).flatMap (slice size list) = list := by
  rw [flatMap_slice, take_of_length_le (le_sliceCount_mul positive)]

theorem le_foldr_max {number : ℕ} {numbers : List ℕ} (mem : number ∈ numbers) : number ≤ numbers.foldr max 0 := by
  induction numbers with
  | nil => cases mem
  | cons first numbers known =>
    rcases mem_cons.mp mem with rfl | later
    · exact le_max_left _ _
    · exact (known later).trans (le_max_right _ _)

theorem zip_flatMap {Item First Second : Type} {items : List Item} {first : Item → List First}
    {second : Item → List Second} (same : ∀ item ∈ items, (first item).length = (second item).length) :
    (items.flatMap first).zip (items.flatMap second) = items.flatMap fun item => (first item).zip (second item) := by
  induction items with
  | nil => rfl
  | cons item items known =>
    obtain ⟨here, later⟩ := forall_mem_cons.mp same
    rw [flatMap_cons, flatMap_cons, flatMap_cons, zip_append here, known later]

end TinyDSV41.Lib
