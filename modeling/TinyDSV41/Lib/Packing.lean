/-
**Packing sorted items greedily.**

A bin has a width and a bound: it holds at most so many items, and none whose key is above the bound.
Items in the order of their keys are packed from the front, each time as many as the best of the bins
takes.

* `Greedy` — a plan that takes, at every step, at least what any bin takes.
* `take_bounded` — as many of the first items are below a bound as there are items below it.
* `greedy_minimal` — no division of the items into batches that fit has fewer batches, whatever its order.
-/

import Mathlib.Data.List.Sort
import Mathlib.Data.List.Perm.Subperm
import Mathlib.Data.List.TakeWhile

namespace TinyDSV41.Lib

open List

variable {Item Key : Type} [LinearOrder Key]

/-- What bounds a batch: how many items it may have, and how large their keys may be. -/
structure Bin (Key : Type) where
  width : ℕ
  bound : Key

structure Bin.Holds (key : Item → Key) (bin : Bin Key) (batch : List Item) : Prop where
  width : batch.length ≤ bin.width
  bound : ∀ item ∈ batch, key item ≤ bin.bound

def Bin.takes (key : Item → Key) (bin : Bin Key) (items : List Item) : ℕ :=
  ((items.take bin.width).takeWhile fun item => key item ≤ bin.bound).length

/-- Batches from the front of the items, each at least as large as what any bin takes. -/
inductive Greedy (key : Item → Key) (bins : List (Bin Key)) : List Item → List (List Item) → Prop
  | nil : Greedy key bins [] []
  | cons {batch rest : List Item} {plan : List (List Item)} (filled : batch ≠ [])
      (widest : ∀ bin ∈ bins, bin.takes key (batch ++ rest) ≤ batch.length)
      (later : Greedy key bins rest plan) : Greedy key bins (batch ++ rest) (batch :: plan)

variable {key : Item → Key} {bins : List (Bin Key)} {bin : Bin Key} {items rest prior batch : List Item}
  {plan : List (List Item)} {bound : Key}

theorem Bin.takes_holds (bin : Bin Key) (items : List Item) :
    bin.Holds key (items.take (bin.takes key items)) := by
  have front : items.take (bin.takes key items)
      = (items.take bin.width).takeWhile fun item => key item ≤ bin.bound :=
    (prefix_iff_eq_take.mp (( takeWhile_prefix _).trans ( take_prefix bin.width items))).symm
  rw [front]
  refine ⟨?_, fun item mem => ?_⟩
  · have short := ( takeWhile_prefix (l := items.take bin.width)
      (fun item => decide (key item ≤ bin.bound))).length_le
    rw [length_take] at short
    omega
  · exact of_decide_eq_true (mem_takeWhile_imp (p := fun item => decide (key item ≤ bin.bound)) mem)

theorem Bin.takes_le (bin : Bin Key) (items : List Item) : bin.takes key items ≤ items.length :=
  (( takeWhile_prefix _).trans ( take_prefix bin.width items)).length_le

theorem Bin.Holds.takes (holds : bin.Holds key batch) (rest : List Item) :
    batch.length ≤ bin.takes key (batch ++ rest) := by
  have shorter : batch <+: (batch ++ rest).take bin.width :=
    prefix_take_iff.mpr ⟨List.prefix_append batch rest, holds.width⟩
  obtain ⟨others, split⟩ := shorter
  unfold Bin.takes
  rw [← split, takeWhile_append_of_pos fun item mem => decide_eq_true (holds.bound item mem),
    length_append]
  exact Nat.le_add_right _ _

theorem filter_sorted (sorted : items.Pairwise fun one two => key one ≤ key two) (bound : Key) :
    items.filter (fun item => key item ≤ bound) = items.takeWhile fun item => key item ≤ bound := by
  induction sorted with
  | nil => rfl
  | @cons first others smallest _ known =>
    by_cases below : key first ≤ bound
    · have first_ : decide (key first ≤ bound) = true := decide_eq_true below
      rw [filter_cons, takeWhile_cons, if_pos first_, if_pos first_, known]
    · have above : ∀ item ∈ first :: others, ¬ decide (key item ≤ bound) = true := by
        refine forall_mem_cons.mpr
          ⟨fun holds => below (of_decide_eq_true holds), fun item mem holds => ?_⟩
        exact below ((smallest item mem).trans (of_decide_eq_true holds))
      rw [filter_eq_nil_iff.mpr above, takeWhile_cons, if_neg (above first mem_cons_self)]

theorem take_bounded (sorted : items.Pairwise fun one two => key one ≤ key two)
    (among : batch.Subperm items) (below : ∀ item ∈ batch, key item ≤ bound) :
    ∀ item ∈ items.take batch.length, key item ≤ bound := by
  intro item mem
  have count : batch.length ≤ (items.takeWhile fun item => key item ≤ bound).length := by
    rw [← filter_sorted sorted, ← countP_eq_length_filter]
    calc batch.length = batch.countP fun item => key item ≤ bound :=
          (countP_eq_length.mpr fun item mem => decide_eq_true (below item mem)).symm
      _ ≤ items.countP fun item => key item ≤ bound := among.countP_le _
  obtain ⟨above, split⟩ := takeWhile_prefix (l := items) fun item => decide (key item ≤ bound)
  rw [← split, take_append_of_le_length count] at mem
  exact of_decide_eq_true
    (mem_takeWhile_imp (p := fun item => decide (key item ≤ bound)) (mem_of_mem_take mem))

/-- Items from a position on can be had in so many steps, each of them below the bound of a bin that
also bounds everything before it. -/
inductive Covers (key : Item → Key) (bins : List (Bin Key)) (items : List Item) : ℕ → ℕ → Prop
  | done : Covers key bins items items.length 0
  | more {position count : ℕ} {bin : Bin Key} (size : ℕ) (here : bin ∈ bins) (width : size ≤ bin.width)
      (below : ∀ item ∈ items.take (position + size), key item ≤ bin.bound)
      (later : Covers key bins items (position + size) count) : Covers key bins items position (count + 1)

theorem Covers.le {position count : ℕ} (covers : Covers key bins items position count) :
    position ≤ items.length := by
  induction covers with
  | done => exact le_rfl
  | more size _ _ _ _ known => omega

/-- Batches that fit, in the order of their bounds, reach as far as their sizes say. -/
theorem covers_of_sorted (sorted : items.Pairwise fun one two => key one ≤ key two)
    {front back : List (List Item × Bin Key)}
    (ordered : (front ++ back).Pairwise fun one two => one.2.bound ≤ two.2.bound)
    (fits : ∀ entry ∈ front ++ back, entry.2 ∈ bins ∧ entry.2.Holds key entry.1)
    (same : ((front ++ back).flatMap Prod.fst).Perm items) :
    Covers key bins items (front.flatMap Prod.fst).length back.length := by
  induction back generalizing front with
  | nil =>
    rw [append_nil] at same
    rw [same.length_eq]
    exact .done
  | cons entry back known =>
    obtain ⟨here, holds⟩ := fits entry (mem_append_right _ mem_cons_self)
    have moved : front ++ entry :: back = (front ++ [entry]) ++ back := by
      rw [append_assoc, singleton_append]
    have reached : (front.flatMap Prod.fst).length + entry.1.length
        = ((front ++ [entry]).flatMap Prod.fst).length := by
      rw [flatMap_append, flatMap_singleton, length_append]
    have among : ((front ++ [entry]).flatMap Prod.fst).Subperm items := by
      rw [moved, flatMap_append] at same
      exact (sublist_append_left _ _).subperm.trans same.subperm
    refine .more entry.1.length here holds.width ?_ ?_
    · rw [reached]
      refine take_bounded sorted among fun item mem => ?_
      obtain ⟨other, within, inside⟩ := mem_flatMap.mp mem
      have smaller : other.2.bound ≤ entry.2.bound := by
        rcases mem_append.mp within with earlier | last
        · exact (pairwise_append.mp ordered).2.2 other earlier entry mem_cons_self
        · rw [mem_singleton.mp last]
      have bounded := (fits other (by rw [moved]; exact mem_append_left _ within)).2.bound item inside
      exact bounded.trans smaller
    · rw [reached]
      rw [moved] at ordered fits same
      exact known ordered fits same

theorem Greedy.flatten (greedy : Greedy key bins items plan) : plan.flatten = items := by
  induction greedy with
  | nil => rfl
  | cons _ _ _ known => rw [flatten_cons, known]

/-- A greedy plan that has come at least as far needs no more steps. -/
theorem Greedy.ahead {position count : ℕ} (greedy : Greedy key bins rest plan)
    (covers : Covers key bins items position count) (split : items = prior ++ rest)
    (further : position ≤ prior.length) : plan.length ≤ count := by
  induction covers generalizing prior rest plan with
  | done =>
    rw [split, length_append] at further
    have empty : rest = [] := length_eq_zero_iff.mp (by omega)
    cases greedy with
    | nil => exact le_rfl
    | cons filled _ _ => exact absurd (append_eq_nil_iff.mp empty).1 filled
  | @more position count bin size here width below later known =>
    cases greedy with
    | nil => exact Nat.zero_le _
    | @cons batch rest plan filled widest greedy =>
      refine Nat.succ_le_succ (known greedy (split.trans (append_assoc _ _ _).symm) ?_)
      rw [length_append]
      by_contra short
      have reach := later.le
      rw [split, length_append, length_append] at reach
      -- what the bin would take here is more than the plan takes
      have ahead : bin.Holds key ((batch ++ rest).take (position + size - prior.length)) := by
        refine ⟨?_, fun item mem => below item ?_⟩
        · rw [length_take]
          omega
        · rw [split, show position + size = prior.length + (position + size - prior.length) by omega,
            take_length_add_append]
          exact mem_append_right _ mem
      have taken := ahead.takes ((batch ++ rest).drop (position + size - prior.length))
      rw [take_append_drop, length_take, length_append] at taken
      have most := widest bin here
      omega

/-- **No division of the items into batches that fit has fewer batches than a greedy plan.** -/
theorem greedy_minimal (sorted : items.Pairwise fun one two => key one ≤ key two)
    (greedy : Greedy key bins items plan) {batches : List (List Item)} (same : batches.flatten.Perm items)
    (fits : ∀ batch ∈ batches, ∃ bin ∈ bins, bin.Holds key batch) : plan.length ≤ batches.length := by
  obtain ⟨chosen, each⟩ : ∃ chosen : List (List Item × Bin Key), chosen.map Prod.fst = batches ∧
      ∀ entry ∈ chosen, entry.2 ∈ bins ∧ entry.2.Holds key entry.1 := by
    clear same
    induction batches with
    | nil => exact ⟨[], rfl, nofun⟩
    | cons batch others known =>
      obtain ⟨⟨bin, here, holds⟩, later⟩ := forall_mem_cons.mp fits
      obtain ⟨chosen, names, each⟩ := known later
      exact ⟨(batch, bin) :: chosen, by rw [map_cons, names], forall_mem_cons.mpr ⟨⟨here, holds⟩, each⟩⟩
  obtain ⟨rfl, each⟩ := each
  let earlier : List Item × Bin Key → List Item × Bin Key → Prop := fun one two => one.2.bound ≤ two.2.bound
  have order := perm_insertionSort earlier chosen
  have covers : Covers key bins items ([].flatMap Prod.fst).length (chosen.insertionSort earlier).length :=
    covers_of_sorted sorted (pairwise_insertionSort earlier chosen)
      (fun entry mem => each entry (order.mem_iff.mp mem))
      ((order.flatMap_right Prod.fst).trans (by rw [flatMap_def]; exact same))
  have least := greedy.ahead covers (nil_append items).symm (Nat.zero_le _)
  rw [order.length_eq] at least
  rw [length_map]
  exact least

end TinyDSV41.Lib
