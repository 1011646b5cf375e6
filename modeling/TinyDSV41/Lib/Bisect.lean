/-
**Positions found by halving, and sums over groups of positions.**

* `bisect` — the first position of a span from which on a condition fails.
* `bisect_split` — in a list it is found where items that fail follow items that hold.
* `bisect_span` — two searches find the numbers of an increasing run that are in a span.
* `sum_groups` — a sum over groups of positions, the last one perhaps not full, is the sum over positions.
* `sum_lanes` — a sum over lanes that are divided among items is the sum over items.
-/

import TinyDSV41.Lib.Slices
import Mathlib.Algebra.BigOperators.Intervals

namespace TinyDSV41.Lib

open List

/-- The first position of `[lo, hi)` at which `before` fails, if it holds before this position and not after. -/
def bisect (before : ℕ → Bool) (lo hi : ℕ) : ℕ :=
  if lo < hi then
    if before ((lo + hi) / 2) = true then bisect before ((lo + hi) / 2 + 1) hi else bisect before lo ((lo + hi) / 2)
  else lo
termination_by hi - lo

variable {before : ℕ → Bool} {lo hi cut : ℕ}

/-- **Halving finds where the condition begins to fail.** -/
theorem bisect_eq (low : lo ≤ cut) (high : cut ≤ hi) (holds : ∀ place, lo ≤ place → place < cut → before place = true)
    (fails : ∀ place, cut ≤ place → place < hi → before place = false) : bisect before lo hi = cut := by
  induction lo, hi using bisect.induct before with unfold bisect
  | case1 lo hi less here known =>
    rw [if_pos less, if_pos here]
    have beyond : (lo + hi) / 2 + 1 ≤ cut := by
      by_contra early
      rw [fails _ (by omega) (by omega)] at here
      exact absurd here Bool.false_ne_true
    exact known beyond high (fun place after => holds place (by omega)) fails
  | case2 lo hi less there known =>
    rw [if_pos less, if_neg there]
    have within : cut ≤ (lo + hi) / 2 := by
      by_contra late
      exact there (holds _ (by omega) (by omega))
    exact known low within holds fun place after inside => fails place after (by omega)
  | case3 lo hi done =>
    rw [if_neg done]
    omega

theorem bisect_ge (before : ℕ → Bool) (lo hi : ℕ) : lo ≤ bisect before lo hi := by
  induction lo, hi using bisect.induct before with unfold bisect
  | case1 lo hi less here known =>
    rw [if_pos less, if_pos here]
    omega
  | case2 lo hi less here known =>
    rw [if_pos less, if_neg here]
    exact known
  | case3 lo hi done =>
    rw [if_neg done]

theorem le_bisect (high : cut ≤ hi) (holds : ∀ place, lo ≤ place → place < cut → before place = true) :
    cut ≤ bisect before lo hi := by
  induction lo, hi using bisect.induct before with unfold bisect
  | case1 lo hi less here known =>
    rw [if_pos less, if_pos here]
    exact known high fun place after => holds place (by omega)
  | case2 lo hi less here known =>
    rw [if_pos less, if_neg here]
    -- The condition fails in the middle, which is therefore not before the cut, unless the cut is before the span.
    by_cases inside : lo ≤ cut
    · refine known ?_ holds
      by_contra beyond
      exact here (holds _ (by omega) (by omega))
    · exact (not_le.mp inside).le.trans (bisect_ge before lo _)
  | case3 lo hi done =>
    rw [if_neg done]
    omega

/-- **In a list the position is found where items that fail follow items that hold.** -/
theorem bisect_split {Item : Type} (test : Item → Bool) (default : Item) {list front small large rest : List Item}
    (split : list = front ++ (small ++ (large ++ rest))) (holds : ∀ item ∈ small, test item = true)
    (fails : ∀ item ∈ large, test item = false) :
    bisect (fun place => test (list.getD place default)) front.length (front.length + (small.length + large.length))
      = front.length + small.length := by
  subst split
  refine bisect_eq (Nat.le_add_right _ _) (by omega) (fun place low high => ?_) fun place low high => ?_
  · have found : (front ++ (small ++ (large ++ rest))).getD place default = small[place - front.length] := by
      rw [getD_eq_getElem?_getD, getElem?_append_right low, getElem?_append_left (by omega),
        getElem?_eq_getElem (by omega)]
      rfl
    rw [found]
    exact holds _ (getElem_mem _)
  · have found : (front ++ (small ++ (large ++ rest))).getD place default
        = large[place - front.length - small.length] := by
      rw [getD_eq_getElem?_getD, getElem?_append_right (by omega), getElem?_append_right (by omega),
        getElem?_append_left (by omega), getElem?_eq_getElem (by omega)]
      rfl
    rw [found]
    exact fails _ (getElem_mem _)

theorem filter_split {numbers : List ℕ} (increasing : numbers.Pairwise (· < ·)) (bound : ℕ) :
    numbers = numbers.filter (· < bound) ++ numbers.filter (bound ≤ ·) := by
  induction numbers with
  | nil => rfl
  | cons number numbers known =>
    obtain ⟨least, later⟩ := pairwise_cons.mp increasing
    by_cases below : number < bound
    · rw [filter_cons, filter_cons, if_pos (decide_eq_true below),
        if_neg (by simpa using below), cons_append, ← known later]
    · have above : bound ≤ number := not_lt.mp below
      have none_ : numbers.filter (· < bound) = [] :=
        filter_eq_nil_iff.mpr fun other mem small =>
          absurd (of_decide_eq_true small) (above.trans (least other mem).le).not_gt
      have all : numbers.filter (bound ≤ ·) = numbers :=
        filter_eq_self.mpr fun other mem => decide_eq_true (above.trans (least other mem).le)
      rw [filter_cons, filter_cons, if_neg (by simpa using above), if_pos (decide_eq_true above), none_, all]
      rfl

/-- **Two searches find the numbers of a run that are in a span.** -/
theorem bisect_span {flat front run rest : List ℕ} (split : flat = front ++ (run ++ rest))
    (increasing : run.Pairwise (· < ·)) (lower upper : ℕ) :
    ∃ before after : List ℕ, flat = before ++ ((run.filter (lower ≤ ·)).filter (· < upper) ++ after) ∧
      bisect (fun place => flat.getD place 0 < lower) front.length (front.length + run.length) = before.length ∧
      bisect (fun place => flat.getD place 0 < upper) before.length (front.length + run.length)
        = before.length + ((run.filter (lower ≤ ·)).filter (· < upper)).length := by
  have low := filter_split increasing lower
  have high := filter_split (increasing.filter (lower ≤ ·)) upper
  generalize small_ : run.filter (· < lower) = small at low
  generalize later_ : run.filter (lower ≤ ·) = later at low high
  generalize within_ : later.filter (· < upper) = within at high
  generalize large_ : later.filter (upper ≤ ·) = large at high
  have sizes : run.length = small.length + (within.length + large.length) := by
    rw [low, high, length_append, length_append]
  have whole : flat = (front ++ small) ++ (within ++ (large ++ rest)) := by
    rw [split, low, high]
    simp only [append_assoc]
  refine ⟨front ++ small, large ++ rest, whole, ?_, ?_⟩
  · rw [length_append, sizes, ← length_append, ← high]
    have parts : flat = front ++ (small ++ (later ++ rest)) := by rw [split, low, append_assoc]
    refine bisect_split (fun number => decide (number < lower)) 0 parts ?_ ?_
    · intro number mem
      rw [← small_] at mem
      exact (mem_filter.mp mem).2
    · intro number mem
      rw [← later_] at mem
      exact decide_eq_false (not_lt.mpr (of_decide_eq_true (mem_filter.mp mem).2))
  · have total : front.length + run.length = (front ++ small).length + (within.length + large.length) := by
      rw [sizes, length_append, Nat.add_assoc]
    rw [total]
    refine bisect_split (fun number => decide (number < upper)) 0 whole (fun number mem => ?_) fun number mem => ?_
    · rw [← within_] at mem
      exact (mem_filter.mp mem).2
    · rw [← large_] at mem
      exact decide_eq_false (not_lt.mpr (of_decide_eq_true (mem_filter.mp mem).2))

section Sums

variable {Value : Type} [AddCommMonoid Value]

theorem sum_range_mul (outer inner : ℕ) (value : ℕ → Value) :
    ∑ place ∈ Finset.range (outer * inner), value place
      = ∑ row ∈ Finset.range outer, ∑ column ∈ Finset.range inner, value (row * inner + column) := by
  induction outer with
  | zero => rw [Nat.zero_mul, Finset.sum_range_zero, Finset.sum_range_zero]
  | succ outer known => rw [Nat.succ_mul, Finset.sum_range_add, known, Finset.sum_range_succ]

theorem sum_range_below {length total : ℕ} (short : length ≤ total) (value : ℕ → Value) :
    ∑ place ∈ Finset.range total, (if place < length then value place else 0)
      = ∑ place ∈ Finset.range length, value place := by
  rw [← Finset.sum_filter]
  refine Finset.sum_congr (Finset.ext fun place => ?_) fun _ _ => rfl
  rw [Finset.mem_filter, Finset.mem_range, Finset.mem_range]
  exact ⟨And.right, fun below => ⟨below.trans_le short, below⟩⟩

/-- **A sum over groups of positions, the last one perhaps not full.** -/
theorem sum_groups {size : ℕ} (positive : 0 < size) (length : ℕ) (value : ℕ → Value) :
    ∑ group ∈ Finset.range (sliceCount size length), ∑ place ∈ Finset.range size,
        (if group * size + place < length then value (group * size + place) else 0)
      = ∑ place ∈ Finset.range length, value place := by
  rw [← sum_range_below (le_sliceCount_mul positive) value, sum_range_mul]

/-- **A sum over lanes that are divided among items**, each item with its blocks. Further lanes are idle. -/
theorem sum_lanes {lanes items blocks : ℕ} (enough : items * blocks ≤ lanes) (used : blocks = 0 → lanes = 0)
    (value : ℕ → ℕ → Value) :
    ∑ lane ∈ Finset.range lanes, (if lane / blocks < items then value (lane / blocks) (lane % blocks) else 0)
      = ∑ item ∈ Finset.range items, ∑ block ∈ Finset.range blocks, value item block := by
  rcases Nat.eq_zero_or_pos blocks with rfl | positive
  · rw [used rfl]
    simp
  · have inside : ∀ lane, lane / blocks < items ↔ lane < items * blocks := fun lane => Nat.div_lt_iff_lt_mul positive
    simp only [inside]
    rw [sum_range_below enough, sum_range_mul]
    refine Finset.sum_congr rfl fun item _ => Finset.sum_congr rfl fun block mem => ?_
    have small := Finset.mem_range.mp mem
    rw [grid_div small, grid_mod small]

theorem sum_getD {Item : Type} (items : List Item) (default : Item) (value : Item → Value) :
    ∑ place ∈ Finset.range items.length, value (items.getD place default) = (items.map value).sum := by
  have places : (range items.length).map (fun place => value (items.getD place default)) = items.map value := by
    refine ext_getElem (by simp) fun place one two => ?_
    rw [length_map] at two
    rw [getElem_map, getElem_map, getElem_range, getD_eq_getElem?_getD, getElem?_eq_getElem two]
    rfl
  exact congrArg sum places

theorem sum_filter_range (count : ℕ) (holds : ℕ → Prop) [DecidablePred holds] (value : ℕ → Value) :
    (((range count).filter holds).map value).sum
      = ∑ number ∈ Finset.range count, if holds number then value number else 0 := by
  rw [← Finset.sum_filter]
  rfl

end Sums

end TinyDSV41.Lib
