/-
**Rows added up under indices.**

* `indexAdd` — for every place, the sum of the rows whose index it is.
* `indexAdd_permutation` — under the indices of a permutation, rows are only put in another order.
-/

import TinyDSV41.Lib.Rows
import Mathlib.Algebra.BigOperators.Group.List.Basic

namespace TinyDSV41.Lib

open List

variable {Row : Type} [AddCommMonoid Row]

def sumUnder (ids : List ℤ) (rows : List Row) (place : ℤ) : Row :=
  (((ids.zip rows).filter fun entry => entry.1 = place).map Prod.snd).sum

/-- Rows added up under their indices. An index must be one of the places. -/
def indexAdd (length : ℕ) (ids : List ℤ) (rows : List Row) : Option (List Row) :=
  if (ids.all fun id => 0 ≤ id ∧ id < length) = true ∧ ids.length = rows.length then
    some ((range length).map fun (place : ℕ) => sumUnder ids rows place)
  else none

variable {length : ℕ} {ids : List ℤ} {rows result : List Row}

theorem indexAdd_some (within : Within ids length) (each : ids.length = rows.length) :
    indexAdd length ids rows = some ((range length).map fun (place : ℕ) => sumUnder ids rows place) :=
  if_pos ⟨List.all_eq_true.mpr fun id mem => decide_eq_true (within id mem), each⟩

theorem sumUnder_map {Item : Type} (index : Item → ℤ) (row : Item → Row) (items : List Item) (place : ℤ) :
    sumUnder (items.map index) (items.map row) place
      = ((items.filter fun item => index item = place).map row).sum := by
  unfold sumUnder
  rw [zip_map', filter_map, map_map]
  rfl

theorem sumUnder_absent {place : ℤ} (absent : place ∉ ids) : sumUnder ids rows place = 0 := by
  have none_ : ∀ entry ∈ ids.zip rows, ¬ decide (entry.1 = place) = true := by
    intro entry mem equal
    rw [← of_decide_eq_true equal] at absent
    exact absent (of_mem_zip mem).1
  unfold sumUnder
  rw [filter_eq_nil_iff.mpr none_]
  rfl

theorem sumUnder_alone (selected : indexSelect result ids = some rows) (distinct : ids.Nodup) {place : ℤ}
    (mem : place ∈ ids) : rowAt result place = some (sumUnder ids rows place) := by
  have reads := indexSelect_iff.mp selected
  clear selected
  unfold sumUnder
  induction reads with
  | nil => cases mem
  | @cons id row ids rows here _ known =>
    obtain ⟨fresh, others⟩ := nodup_cons.mp distinct
    rw [zip_cons_cons, filter_cons]
    by_cases same : id = place
    · subst same
      have rest : sumUnder ids rows id = 0 := sumUnder_absent fresh
      unfold sumUnder at rest
      rw [if_pos (decide_eq_true rfl), map_cons, sum_cons, rest, add_zero]
      exact here
    · rw [if_neg fun equal => same (of_decide_eq_true equal)]
      exact known others ((mem_cons.mp mem).resolve_left (Ne.symm same))

/-- **Under the indices of a permutation, rows are put in the order from which they are selected.** -/
theorem indexAdd_permutation (permuted : ids.Perm (arange length)) (sized : result.length = length)
    (selected : indexSelect result ids = some rows) : indexAdd length ids rows = some result := by
  rw [indexAdd_some (fun id mem => mem_arange.mp (permuted.mem_iff.mp mem))
    (indexSelect_length selected).symm]
  refine congrArg some (ext_getElem? fun index => ?_)
  rw [getElem?_map]
  by_cases inside : index < length
  · have mem : (index : ℤ) ∈ ids := permuted.mem_iff.mpr (mem_arange.mpr ⟨Int.natCast_nonneg index, by omega⟩)
    have found := sumUnder_alone selected (permuted.nodup_iff.mpr arange_nodup) mem
    obtain ⟨place, same, there⟩ := rowAt_index found
    rw [getElem?_range inside, Option.map_some, Int.ofNat.inj same, there]
    rw [← Int.ofNat.inj same]
  · rw [getElem?_eq_none (by rw [length_range]; omega), getElem?_eq_none (by omega)]
    rfl

end TinyDSV41.Lib
