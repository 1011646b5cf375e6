/-
**Scattered writes.**

* `scatter` — values written at destinations, one after the other.
* `scatter_at`, `scatter_other` — what is found at a destination that is written once, and at other places.
* `compact` — the places that satisfy a condition, written in their order by how many there are so far.
* `compact_eq` — these places, and after them what was there.
* `filter_multiples` — the multiples of a number below a bound.
* `length_spaced` — how many numbers fit below a bound if they keep a distance.
-/

import Mathlib.Data.List.Range
import Mathlib.Tactic.Ring

namespace TinyDSV41.Lib

open List

variable {Item : Type}

/-- `scatter_(-1, indices, values)` of a row. -/
def scatter (table : List Item) (entries : List (ℕ × Item)) : List Item :=
  entries.foldl (fun table entry => table.set entry.1 entry.2) table

variable {table : List Item} {entries : List (ℕ × Item)} {place : ℕ}

theorem length_scatter (table : List Item) (entries : List (ℕ × Item)) : (scatter table entries).length = table.length := by
  induction entries generalizing table with
  | nil => rfl
  | cons entry entries known =>
    refine (known (table.set entry.1 entry.2)).trans ?_
    rw [length_set]

theorem scatter_append (table : List Item) (first second : List (ℕ × Item)) :
    scatter table (first ++ second) = scatter (scatter table first) second := foldl_append

theorem scatter_other (absent : ∀ entry ∈ entries, entry.1 ≠ place) : (scatter table entries)[place]? = table[place]? := by
  induction entries generalizing table with
  | nil => rfl
  | cons entry entries known =>
    obtain ⟨here, later⟩ := forall_mem_cons.mp absent
    exact (known later).trans (getElem?_set_ne here)

/-- **A destination that is written once has what was written.** -/
theorem scatter_at {value : Item} (distinct : (entries.map Prod.fst).Nodup) (mem : (place, value) ∈ entries)
    (inside : place < table.length) : (scatter table entries)[place]? = some value := by
  induction entries generalizing table with
  | nil => cases mem
  | cons entry entries known =>
    rw [map_cons, nodup_cons] at distinct
    rcases mem_cons.mp mem with rfl | later
    · have rest : ∀ entry ∈ entries, entry.1 ≠ place := fun entry listed same =>
        distinct.1 (by rw [← same]; exact mem_map.mpr ⟨entry, listed, rfl⟩)
      exact (scatter_other rest).trans (getElem?_set_self inside)
    · exact known distinct.2 later (by rw [length_set]; exact inside)

/-! ### Places that satisfy a condition -/

/-- How many of the first places satisfy a condition. -/
def countBelow (kept : ℕ → Bool) (bound : ℕ) : ℕ := ((range bound).filter kept).length

/-- Where a place is written: after those that satisfy the condition so far, or beyond all places. -/
def destination (kept : ℕ → Bool) (length place : ℕ) : ℕ :=
  if kept place = true then countBelow kept (place + 1) - 1 else length

/-- The places that satisfy a condition, scattered over zeros. -/
def compact (kept : ℕ → Bool) (length : ℕ) : List ℕ :=
  scatter (replicate (length + 1) 0) ((range length).map fun place => (destination kept length place, place))

variable {kept : ℕ → Bool} {length bound : ℕ}

theorem countBelow_succ (kept : ℕ → Bool) (bound : ℕ) :
    countBelow kept (bound + 1) = countBelow kept bound + if kept bound = true then 1 else 0 := by
  unfold countBelow
  rw [range_succ, filter_append, length_append]
  by_cases keep : kept bound = true
  · rw [filter_cons_of_pos keep, if_pos keep]
    rfl
  · rw [filter_cons_of_neg keep, if_neg keep]
    rfl

theorem countBelow_le (kept : ℕ → Bool) (bound : ℕ) : countBelow kept bound ≤ bound :=
  (length_filter_le kept (range bound)).trans (Nat.le_of_eq length_range)

theorem destination_kept {place : ℕ} (keep : kept place = true) : destination kept length place = countBelow kept place := by
  unfold destination
  rw [if_pos keep, countBelow_succ, if_pos keep, Nat.add_sub_cancel]

theorem destination_left {place : ℕ} (left : kept place ≠ true) : destination kept length place = length := if_neg left

/-- **The scattered places are those that satisfy the condition, in their order, and zeros after them.** -/
theorem compact_eq (kept : ℕ → Bool) (length : ℕ) : (compact kept length).take length
    = (range length).filter kept ++ replicate (length - countBelow kept length) 0 := by
  -- The first places are written one after the other, the last entry takes what satisfies nothing.
  have written : ∀ count ≤ length, (scatter (replicate (length + 1) 0)
          ((range count).map fun place => (destination kept length place, place))).take length
        = (range count).filter kept ++ replicate (length - countBelow kept count) 0 := by
    intro count
    induction count with
    | zero =>
      intro _
      show (replicate (length + 1) 0).take length = _
      rw [take_replicate, min_eq_left (Nat.le_succ length)]
      rfl
    | succ count known =>
      intro within
      have before := known (Nat.le_of_succ_le within)
      have room : countBelow kept count < length := (countBelow_le kept count).trans_lt within
      rw [range_succ, map_append, scatter_append]
      show ((scatter _ _).set (destination kept length count) count).take length = _
      rw [filter_append, countBelow_succ]
      by_cases keep : kept count = true
      · obtain ⟨rest, more⟩ : ∃ rest, length - countBelow kept count = rest + 1 :=
          ⟨length - countBelow kept count - 1, by omega⟩
        rw [destination_kept keep, if_pos keep, take_set, before, filter_cons_of_pos keep,
          append_assoc, more, show length - (countBelow kept count + 1) = rest by omega]
        show set (_ ++ _) ((range count).filter kept).length count = _
        rw [set_append_right _ _ (Nat.le_refl _), Nat.sub_self]
        rfl
      · rw [destination_left keep, if_neg keep, take_set_of_le (Nat.le_refl length), before, filter_cons_of_neg keep,
          filter_nil, append_nil, Nat.add_zero]
  exact written length (Nat.le_refl length)

theorem compact_getElem? {index : ℕ} (inside : index < countBelow kept length) :
    (compact kept length)[index]? = ((range length).filter kept)[index]? := by
  have short : index < length := inside.trans_le (countBelow_le kept length)
  rw [← getElem?_take_of_lt short, compact_eq, getElem?_append_left inside]

theorem filter_multiples {distance : ℕ} (positive : 0 < distance) (count : ℕ) :
    (range (count * distance)).filter (fun place => decide (place % distance = 0))
      = (range count).map (· * distance) := by
  induction count with
  | zero =>
    rw [Nat.zero_mul]
    rfl
  | succ count known =>
    obtain ⟨rest, rfl⟩ : ∃ rest, distance = rest + 1 := ⟨distance - 1, by omega⟩
    have none_ : ((range rest).map fun offset => count * (rest + 1) + (offset + 1)).filter
        (fun place => decide (place % (rest + 1) = 0)) = [] := by
      refine filter_eq_nil_iff.mpr fun place mem zero => ?_
      obtain ⟨offset, inside, rfl⟩ := mem_map.mp mem
      have below := mem_range.mp inside
      rw [decide_eq_true_eq, Nat.mul_comm, Nat.mul_add_mod, Nat.mod_eq_of_lt (by omega)] at zero
      omega
    have first : decide ((count * (rest + 1) + 0) % (rest + 1) = 0) = true :=
      decide_eq_true (by rw [Nat.add_zero, Nat.mul_mod_left])
    rw [Nat.succ_mul, range_add, filter_append, known, range_succ (n := count), map_append,
      range_succ_eq_map (n := rest), map_cons, map_map, filter_cons, if_pos first]
    exact congrArg (map (· * (rest + 1)) (range count) ++ ·) (congrArg (cons _) none_)

/-- **Numbers that keep a distance below a bound are few.** -/
theorem length_spaced {distance : ℕ} {numbers : List ℕ} (apart : numbers.Pairwise fun low high => low + distance ≤ high)
    (within : ∀ number ∈ numbers, number + distance ≤ bound) : numbers.length * distance ≤ bound := by
  induction numbers using reverseRecOn generalizing bound with
  | nil => exact (Nat.zero_mul distance).le.trans (Nat.zero_le bound)
  | append_singleton numbers last known =>
    obtain ⟨before, -, gaps⟩ := pairwise_append.mp apart
    have shorter := known before fun number mem => gaps number mem last (mem_singleton_self last)
    have final := within last (mem_append_right _ (mem_singleton_self last))
    rw [length_append, length_singleton, Nat.succ_mul]
    omega

end TinyDSV41.Lib
