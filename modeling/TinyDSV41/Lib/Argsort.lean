/-
**Stable sorting by index.**

* `argsort` — the indices of a tensor in the order of its values, equal values in their order.
* `sortOn` — items in the order of their keys, equal keys in their order.
* `indexSelect_argsort` — items selected by the indices of their sorted keys are the sorted items.
* `sortOn_eq_flatMap` — sorted items are those of each key, one key after the other.
* `indexSelect_unpermute` — sorting the indices of a permutation undoes it.
-/

import TinyDSV41.Lib.Rows
import Mathlib.Data.List.Pairwise

namespace TinyDSV41.Lib

open List

variable {Item Other Key : Type} [LinearOrder Key]

/-- Placed items in the order of their keys, and equal keys in the order of their places. -/
def placed (key : Item → Key) (one two : Item × ℕ) : Prop :=
  key one.1 < key two.1 ∨ key one.1 = key two.1 ∧ one.2 ≤ two.2

instance (key : Item → Key) : DecidableRel (placed key) :=
  fun one two => inferInstanceAs (Decidable (key one.1 < key two.1 ∨ key one.1 = key two.1 ∧ one.2 ≤ two.2))

def sortPlaces (key : Item → Key) (items : List Item) : List (Item × ℕ) :=
  items.zipIdx.insertionSort (placed key)

def sortOn (key : Item → Key) (items : List Item) : List Item := (sortPlaces key items).map Prod.fst

/-- `torch.argsort(stable=True)` -/
def argsort (keys : List Key) : List ℤ := (sortPlaces id keys).map fun entry => (entry.2 : ℤ)

variable {key : Item → Key} {items : List Item} {pairs : List (Item × ℕ)}

instance (key : Item → Key) : Std.Total (placed key) where
  total one two := by
    unfold placed
    rcases lt_trichotomy (key one.1) (key two.1) with less | same | more
    · exact Or.inl (Or.inl less)
    · rcases le_total one.2 two.2 with low | high
      · exact Or.inl (Or.inr ⟨same, low⟩)
      · exact Or.inr (Or.inr ⟨same.symm, high⟩)
    · exact Or.inr (Or.inl more)

instance (key : Item → Key) : IsTrans (Item × ℕ) (placed key) where
  trans one two three first second := by
    unfold placed at *
    rcases first with less | ⟨same, low⟩
    · rcases second with less' | ⟨same', -⟩
      · exact Or.inl (less.trans less')
      · exact Or.inl (same' ▸ less)
    · rcases second with less' | ⟨same', low'⟩
      · exact Or.inl (same ▸ less')
      · exact Or.inr ⟨same.trans same', low.trans low'⟩

theorem sortPlaces_perm (key : Item → Key) (items : List Item) : (sortPlaces key items).Perm items.zipIdx :=
  perm_insertionSort (placed key) items.zipIdx

theorem sortPlaces_sorted (key : Item → Key) (items : List Item) :
    (sortPlaces key items).Pairwise (placed key) := pairwise_insertionSort (placed key) items.zipIdx

theorem sortOn_perm (key : Item → Key) (items : List Item) : (sortOn key items).Perm items := by
  have same := (sortPlaces_perm key items).map Prod.fst
  rw [zipIdx_map_fst] at same
  exact same

theorem length_sortOn : (sortOn key items).length = items.length := (sortOn_perm key items).length_eq

theorem mem_sortOn {item : Item} : item ∈ sortOn key items ↔ item ∈ items := (sortOn_perm key items).mem_iff

theorem sortPlaces_unique (same : pairs.Perm items.zipIdx) (sorted : pairs.Pairwise (placed key)) :
    sortPlaces key items = pairs := by
  refine ((sortPlaces_perm key items).trans same.symm).eq_of_pairwise
    (fun one two here there low high => ?_) (sortPlaces_sorted key items) sorted
  have first := mk_mem_zipIdx_iff_getElem?.mp ((sortPlaces_perm key items).mem_iff.mp here)
  have second := mk_mem_zipIdx_iff_getElem?.mp (same.mem_iff.mp there)
  have place : one.2 = two.2 := by
    rcases low with less | ⟨equal, low⟩
    · rcases high with more | ⟨equal, -⟩
      · exact absurd more less.asymm
      · exact absurd equal less.ne'
    · rcases high with more | ⟨-, high⟩
      · exact absurd equal more.ne'
      · exact le_antisymm low high
  refine Prod.ext ?_ place
  rw [place] at first
  exact Option.mem_unique first second

theorem sortPlaces_map (key : Item → Key) (items : List Item) :
    sortPlaces id (items.map key) = (sortPlaces key items).map (Prod.map key id) := by
  refine sortPlaces_unique ?_ ?_
  · rw [zipIdx_map]
    exact (sortPlaces_perm key items).map _
  · rw [pairwise_map]
    exact sortPlaces_sorted key items

theorem argsort_map (key : Item → Key) (items : List Item) :
    argsort (items.map key) = (sortPlaces key items).map fun entry => (entry.2 : ℤ) := by
  unfold argsort
  rw [sortPlaces_map, map_map]
  rfl

theorem argsort_range (key : ℕ → Key) (count : ℕ) :
    argsort ((range count).map key) = (sortOn key (range count)).map Int.ofNat := by
  rw [argsort_map]
  unfold sortOn
  rw [map_map]
  refine map_congr_left fun entry mem => ?_
  have found := mk_mem_zipIdx_iff_getElem?.mp ((sortPlaces_perm key _).mem_iff.mp mem)
  have same := List.getElem?_eq_some_iff.mp found
  obtain ⟨_, same⟩ := same
  rw [getElem_range] at same
  exact congrArg Int.ofNat same

theorem argsort_perm (keys : List Key) : (argsort keys).Perm (arange keys.length) := by
  have same := (sortPlaces_perm id keys).map fun entry => (entry.2 : ℤ)
  have places : (keys.zipIdx.map fun entry => (entry.2 : ℤ)) = arange keys.length := by
    unfold arange
    rw [range_eq_range', ← zipIdx_map_snd 0 keys, map_map]
    rfl
  rw [places] at same
  exact same

theorem length_argsort {keys : List Key} : (argsort keys).length = keys.length := by
  rw [(argsort_perm keys).length_eq, arange_length]

/-! ### Selecting by sorted indices -/

theorem indexSelect_places (within : ∀ entry ∈ pairs, entry ∈ items.zipIdx) :
    indexSelect items (pairs.map fun entry => (entry.2 : ℤ)) = some (pairs.map Prod.fst) := by
  rw [indexSelect_iff, forall₂_map_left_iff, forall₂_map_right_iff]
  refine forall₂_same.mpr fun entry mem => ?_
  exact rowAt_some (mk_mem_zipIdx_iff_getElem?.mp (within entry mem))

/-- **Items selected by the indices of their sorted keys are the sorted items.** -/
theorem indexSelect_argsort (key : Item → Key) (items : List Item) :
    indexSelect items (argsort (items.map key)) = some (sortOn key items) := by
  rw [argsort_map]
  exact indexSelect_places fun entry => (sortPlaces_perm key items).mem_iff.mp

theorem indexSelect_map {change : Item → Other} {ids : List ℤ} :
    indexSelect (items.map change) ids = (indexSelect items ids).map (map change) := by
  induction ids with
  | nil => rfl
  | cons id ids known =>
    rw [indexSelect_cons, indexSelect_cons, known, rowAt_map]
    cases rowAt items id with
    | none => rfl
    | some row =>
      cases indexSelect items ids with
      | none | some => rfl

theorem indexSelect_argsort_map (key : Item → Key) (change : Item → Other) (items : List Item) :
    indexSelect (items.map change) (argsort (items.map key)) = some ((sortOn key items).map change) := by
  rw [indexSelect_map, indexSelect_argsort]
  rfl

theorem zipIdx_increasing (items : List Item) : items.zipIdx.Pairwise fun one two => one.2 < two.2 := by
  have places := pairwise_lt_range' (s := 0) (n := items.length)
  rw [← zipIdx_map_snd 0 items, pairwise_map] at places
  exact places

theorem sortOn_sorted (key : Item → Key) (items : List Item) :
    (sortOn key items).Pairwise fun one two => key one ≤ key two := by
  unfold sortOn
  rw [pairwise_map]
  refine (sortPlaces_sorted key items).imp fun {one two} before => ?_
  rcases before with less | ⟨same, -⟩
  · exact less.le
  · exact same.le

theorem sortOn_unique {sorted : List Item} (same : sorted.Perm items)
    (increasing : sorted.Pairwise fun one two => key one < key two) : sortOn key items = sorted := by
  refine ((sortOn_perm key items).trans same.symm).eq_of_pairwise (fun one two here there low high => ?_)
    (sortOn_sorted key items) (increasing.imp le_of_lt)
  by_contra differs
  have apart : sorted.Pairwise fun one two => key one ≠ key two := increasing.imp ne_of_lt
  have : Std.Symm fun one two : Item => key one ≠ key two := ⟨fun _ _ => Ne.symm⟩
  exact apart.forall (same.mem_iff.mpr (mem_sortOn.mp here)) there differs (le_antisymm low high)

theorem zip_selected {ids : List ℤ} {picked : List Item} (selected : indexSelect items ids = some picked) :
    picked.zip ids = ids.filterMap fun id => (rowAt items id).map (·, id) := by
  rw [indexSelect_iff] at selected
  induction selected with
  | nil => rfl
  | cons found _ known => rw [zip_cons_cons, known, filterMap_cons, found]; rfl

theorem zip_arange (items : List Item) :
    items.zip (arange items.length) = items.zipIdx.map fun entry => (entry.1, (entry.2 : ℤ)) := by
  rw [zipIdx_eq_zip_range', ← range_eq_range', arange, zip_map_right]
  rfl

theorem indexSelect_arange (items : List Item) : indexSelect items (arange items.length) = some items := by
  have all := indexSelect_places fun entry (mem : entry ∈ items.zipIdx) => mem
  rw [zipIdx_map_fst] at all
  refine Eq.trans (congrArg _ ?_) all
  rw [arange, range_eq_range', ← zipIdx_map_snd 0 items, map_map]
  rfl

/-- **Sorting the indices of a permutation undoes it.** -/
theorem indexSelect_unpermute {order : List ℤ} {picked : List Item} (permutes : order.Perm (arange items.length))
    (selected : indexSelect items order = some picked) : indexSelect picked (argsort order) = some items := by
  have sized : picked.length = order.length := indexSelect_length selected
  have back := indexSelect_argsort_map Prod.snd Prod.fst (picked.zip order)
  rw [map_fst_zip sized.le, map_snd_zip sized.ge] at back
  refine back.trans (congrArg some ?_)
  have same : (items.zipIdx.map fun entry => (entry.1, (entry.2 : ℤ))).Perm (picked.zip order) := by
    rw [← zip_arange, zip_selected (indexSelect_arange items), zip_selected selected]
    exact (permutes.filterMap _).symm
  have increasing : (items.zipIdx.map fun entry => (entry.1, (entry.2 : ℤ))).Pairwise fun one two => one.2 < two.2 :=
    pairwise_map.mpr ((zipIdx_increasing items).imp Int.ofNat_lt.mpr)
  rw [sortOn_unique same increasing, map_map]
  exact zipIdx_map_fst 0 items

/-- **Sorting the indices of sorted items undoes the sorting.** -/
theorem indexSelect_inverse (key : Item → Key) (items : List Item) :
    indexSelect (sortOn key items) (argsort (argsort (items.map key))) = some items := by
  have permutes := argsort_perm (items.map key)
  rw [length_map] at permutes
  exact indexSelect_unpermute permutes (indexSelect_argsort key items)

theorem indexSelect_inverse_map (key : Item → Key) (change : Item → Other) (items : List Item) :
    indexSelect ((sortOn key items).map change) (argsort (argsort (items.map key)))
      = some (items.map change) := by
  rw [indexSelect_map, indexSelect_inverse]
  rfl

/-! ### Runs of equal keys -/

/-- **Sorted items are those of each key, one key after the other.** -/
theorem sortOn_eq_flatMap {keys : List Key} (increasing : keys.Pairwise (· < ·))
    (all : ∀ item ∈ items, key item ∈ keys) :
    sortOn key items = keys.flatMap fun value => items.filter fun item => key item = value := by
  have fst : ∀ value, (items.zipIdx.filter fun entry => key entry.1 = value).map Prod.fst
      = items.filter fun item => key item = value := by
    intro value
    conv_rhs => rw [← zipIdx_map_fst 0 items, filter_map]
    rfl
  have ordered : (keys.flatMap fun value => items.zipIdx.filter fun entry => key entry.1 = value).Pairwise
      fun one two => key one.1 < key two.1 ∨ key one.1 = key two.1 ∧ one.2 < two.2 := by
    refine pairwise_flatMap.mpr
      ⟨fun value _ => ?_, increasing.imp fun {low high} less one first two second => ?_⟩
    · refine ((zipIdx_increasing items).filter _).imp_of_mem fun {one two} first second less => Or.inr ⟨?_, less⟩
      exact (of_decide_eq_true (mem_filter.mp first).2).trans
        (of_decide_eq_true (mem_filter.mp second).2).symm
    · left
      rw [of_decide_eq_true (mem_filter.mp first).2, of_decide_eq_true (mem_filter.mp second).2]
      exact less
  have same : (keys.flatMap fun value => items.zipIdx.filter fun entry => key entry.1 = value).Perm
      items.zipIdx := by
    refine (perm_ext_iff_of_nodup (ordered.imp fun {one two} before equal => ?_)
      ((zipIdx_increasing items).imp fun {one two} less equal => ?_)).mpr fun entry => ?_
    · subst equal
      rcases before with less | ⟨-, less⟩
      all_goals exact lt_irrefl _ less
    · subst equal
      exact lt_irrefl _ less
    · rw [mem_flatMap]
      constructor
      · rintro ⟨value, -, mem⟩
        exact (mem_filter.mp mem).1
      · intro mem
        have found := mk_mem_zipIdx_iff_getElem?.mp mem
        exact ⟨key entry.1, all entry.1 (mem_of_getElem? found),
          mem_filter.mpr ⟨mem, decide_eq_true rfl⟩⟩
  unfold sortOn
  rw [sortPlaces_unique same (ordered.imp fun {one two} before =>
    before.imp_right fun both => ⟨both.1, both.2.le⟩), map_flatMap]
  exact flatMap_congr fun value _ => fst value

end TinyDSV41.Lib
