/-
**An embedding whose rows are divided among the ranks of a mesh.**

A lookup sends every index to the rank that owns its row, and the rows back; the gradient of a row goes
the other way.

* `rowStart`, `rowStop`, `ownerOf` — which rows a rank has, and which rank an index is sent to.
* `forward`, `backward` — the lookup on all ranks, and what each rank adds up for its rows.
* `ownerOf_iff` — an index is sent to the rank that has its row.
* `row_sharded` — the rows are partitioned, the lookup is that of the whole table, and the gradient of a
  row is the mean over the ranks of what they sent for it.
-/

import TinyDSV41.Lib.Exchange
import TinyDSV41.Lib.IndexAdd
import TinyDSV41.Lib.Checks
import Mathlib.Algebra.Module.BigOperators
import Mathlib.Algebra.BigOperators.Fin
import Mathlib.Tactic.Linarith

namespace TinyDSV41.Model

open List Lib
open Option (bind_eq_some_iff)
open Prod (fst snd)

/-- An embedding with at least as many rows as the mesh has ranks; `__init__` refuses others. -/
structure RowShardedEmbedding (size : ℕ) where
  globalNumEmbeddings : ℕ
  mesh : 0 < size
  enough : size ≤ globalNumEmbeddings

namespace RowShardedEmbedding

variable {size : ℕ} (embedding : RowShardedEmbedding size)

def base : ℕ := embedding.globalNumEmbeddings / size

def remainder : ℕ := embedding.globalNumEmbeddings % size

def rowStart (rank : ℕ) : ℕ := rank * embedding.base + min rank embedding.remainder

def rowStop (rank : ℕ) : ℕ :=
  embedding.rowStart rank + embedding.base + if rank < embedding.remainder then 1 else 0

def ownerOf (index : ℤ) : ℤ :=
  if index < (embedding.base + 1) * embedding.remainder then index / (embedding.base + 1)
  else embedding.remainder + (index - (embedding.base + 1) * embedding.remainder) / embedding.base

/-- What the ranks have exchanged before the rows are looked up. -/
structure Route (size : ℕ) where
  order : Fin size → List ℤ
  sendSplits : Fin size → List ℕ
  recvSplits : Fin size → List ℕ
  routed : Fin size → List ℤ

def route (indices : Fin size → List ℤ) : Option (Route size) := do
  let flat ← everyRank fun rank =>
    if ((indices rank).all fun index => 0 ≤ index ∧ index < embedding.globalNumEmbeddings) = true then
      some (indices rank)
    else none
  let owners := fun rank => (flat rank).map embedding.ownerOf
  let order := fun rank => argsort (owners rank)
  let sendCounts ← everyRank fun rank => bincount size (owners rank)
  let recvCounts ← exchangeEven sendCounts
  let sorted ← everyRank fun rank => indexSelect (flat rank) (order rank)
  let routed ← exchange recvCounts sendCounts sorted
  some ⟨order, sendCounts, recvCounts, routed⟩

def places (route : Route size) (rank : Fin size) : List ℤ :=
  (route.routed rank).map fun index => index - embedding.rowStart rank

section Forward

variable {Row : Type}

/-- `RowShardedEmbedding.forward`, on all ranks. Scaling the gradient leaves the rows as they are. -/
def forward (weights : Fin size → List Row) (indices : Fin size → List ℤ) : Option (Fin size → List Row) :=
  if size = 1 then everyRank fun rank => indexSelect (weights rank) (indices rank)
  else do
    let route ← embedding.route indices
    let rows ← everyRank fun rank => indexSelect (weights rank) (embedding.places route rank)
    let returned ← exchange route.sendSplits route.recvSplits rows
    everyRank fun rank => indexSelect (returned rank) (argsort (route.order rank))

def shard (table : List Row) (rank : Fin size) : List Row :=
  (table.drop (embedding.rowStart rank)).take (embedding.rowStop rank - embedding.rowStart rank)

end Forward

section Backward

variable {Row : Type} [AddCommMonoid Row] (Scalar : Type) [DivisionRing Scalar] [Module Scalar Row]

/-- `_ScaleGradient.backward` -/
def scaled (scale : Scalar) (rows : List Row) : List Row := rows.map (scale • ·)

/-- What each rank adds up for its rows, going back through `forward`. -/
def backward (indices : Fin size → List ℤ) (gradients : Fin size → List Row) : Option (Fin size → List Row) :=
  if size = 1 then everyRank fun rank =>
    indexAdd (embedding.rowStop rank - embedding.rowStart rank) (indices rank) (gradients rank)
  else do
    let route ← embedding.route indices
    let returned ← everyRank fun rank =>
      indexAdd (route.order rank).length (argsort (route.order rank)) (gradients rank)
    let rows ← exchange route.recvSplits route.sendSplits returned
    everyRank fun rank => indexAdd (embedding.rowStop rank - embedding.rowStart rank)
      (embedding.places route rank) (scaled Scalar (1 / (size : Scalar)) (rows rank))

end Backward

/-! ### Rows and their owners -/

variable {embedding} {index : ℤ} {rank : Fin size}

theorem base_pos : 0 < embedding.base := Nat.div_pos embedding.enough embedding.mesh

theorem remainder_lt : embedding.remainder < size := Nat.mod_lt _ embedding.mesh

theorem rows_eq : size * embedding.base + embedding.remainder = embedding.globalNumEmbeddings :=
  Nat.div_add_mod _ _

theorem rowStart_low {rank : ℕ} (low : rank < embedding.remainder) :
    (embedding.rowStart rank : ℤ) = rank * (embedding.base + 1) ∧
      (embedding.rowStop rank : ℤ) = (rank + 1) * (embedding.base + 1) := by
  unfold rowStop rowStart
  rw [min_eq_left low.le, if_pos low]
  push_cast
  constructor <;> ring

theorem rowStart_high {rank : ℕ} (high : embedding.remainder ≤ rank) :
    (embedding.rowStart rank : ℤ) = rank * embedding.base + embedding.remainder ∧
      (embedding.rowStop rank : ℤ) = (rank + 1) * embedding.base + embedding.remainder := by
  unfold rowStop rowStart
  rw [min_eq_right high, if_neg high.not_gt]
  push_cast
  constructor <;> ring

/-- **An index is sent to the rank that has its row.** -/
theorem ownerOf_iff {rank : ℕ} :
    embedding.ownerOf index = rank ↔ embedding.rowStart rank ≤ index ∧ index < embedding.rowStop rank := by
  have positive : (0 : ℤ) < embedding.base := Int.ofNat_lt.mpr base_pos
  unfold ownerOf
  by_cases below : index < (embedding.base + 1) * embedding.remainder
  · rw [if_pos below, ediv_eq_iff (by omega)]
    by_cases low : rank < embedding.remainder
    · rw [(rowStart_low low).1, (rowStart_low low).2]
    · rw [(rowStart_high (not_lt.mp low)).1]
      constructor
      all_goals
        rintro ⟨reached, -⟩
        exact absurd reached (by nlinarith)
  · rw [if_neg below, show ∀ quotient : ℤ, (embedding.remainder + quotient = rank ↔ quotient = rank - embedding.remainder)
      from fun quotient => by omega, ediv_eq_iff positive]
    by_cases low : rank < embedding.remainder
    · rw [(rowStart_low low).1, (rowStart_low low).2]
      constructor
      all_goals
        rintro ⟨-, reached⟩
        exact absurd reached (by nlinarith)
    · rw [(rowStart_high (not_lt.mp low)).1, (rowStart_high (not_lt.mp low)).2]
      constructor
      all_goals
        rintro ⟨reached, short⟩
        constructor <;> nlinarith

theorem rowStart_succ (rank : ℕ) : embedding.rowStart (rank + 1) = embedding.rowStop rank := by
  unfold rowStop rowStart
  rw [Nat.succ_mul]
  split_ifs <;> omega

theorem rowStart_lt (rank : ℕ) : embedding.rowStart rank < embedding.rowStop rank := by
  have : 0 < embedding.base := base_pos
  unfold rowStop
  omega

theorem rowStart_mono : Monotone embedding.rowStart :=
  monotone_nat_of_le_succ fun rank => by rw [rowStart_succ]; exact (rowStart_lt rank).le

theorem rowStart_size : embedding.rowStart size = embedding.globalNumEmbeddings := by
  unfold rowStart
  have below : embedding.remainder < size := remainder_lt
  rw [min_eq_right below.le, rows_eq]

theorem rowStart_zero : embedding.rowStart 0 = 0 := by
  unfold rowStart
  rw [Nat.zero_mul, Nat.zero_min]

theorem rowStop_alone (embedding : RowShardedEmbedding 1) : embedding.rowStop 0 = embedding.globalNumEmbeddings := by
  rw [← rowStart_succ, ← rowStart_size]

theorem rowStop_le (rank : Fin size) : embedding.rowStop rank ≤ embedding.globalNumEmbeddings := by
  rw [← rowStart_succ, ← rowStart_size]
  exact rowStart_mono rank.2

theorem ownerOf_range (low : 0 ≤ index) (high : index < embedding.globalNumEmbeddings) :
    0 ≤ embedding.ownerOf index ∧ embedding.ownerOf index < size := by
  have positive : 0 ≤ embedding.ownerOf index := by
    unfold ownerOf
    split_ifs with below
    · exact Int.ediv_nonneg low (by omega)
    · have := Int.ediv_nonneg (by omega : 0 ≤ index - (embedding.base + 1) * embedding.remainder)
        (Int.natCast_nonneg embedding.base)
      omega
  refine ⟨positive, ?_⟩
  by_contra large
  obtain ⟨rank, same⟩ := Int.eq_ofNat_of_zero_le positive
  have beyond : embedding.rowStart size ≤ embedding.rowStart rank := rowStart_mono (by omega)
  rw [rowStart_size] at beyond
  have := (ownerOf_iff.mp same).1
  omega

/-! ### The exchange -/

def Valid (embedding : RowShardedEmbedding size) (indices : Fin size → List ℤ) : Prop :=
  ∀ rank, Within (indices rank) embedding.globalNumEmbeddings

variable {indices : Fin size → List ℤ}

theorem Valid.owned (valid : embedding.Valid indices) (rank : Fin size) :
    Owned size embedding.ownerOf (indices rank) :=
  fun index mem => ownerOf_range (valid rank index mem).1 (valid rank index mem).2

/-- What the ranks exchange before the lookup. -/
def sent (embedding : RowShardedEmbedding size) (indices : Fin size → List ℤ) : Route size where
  order rank := argsort ((indices rank).map embedding.ownerOf)
  sendSplits := sendSplits embedding.ownerOf indices
  recvSplits := recvSplits embedding.ownerOf indices
  routed := received embedding.ownerOf indices

theorem route_valid (valid : embedding.Valid indices) :
    embedding.route indices = some (embedding.sent indices) := by
  have flat : everyRank (fun rank => if ((indices rank).all fun index =>
      0 ≤ index ∧ index < embedding.globalNumEmbeddings) = true then some (indices rank) else none)
        = some indices :=
    everyRank_eq_some.mpr fun rank =>
      if_pos (all_eq_true.mpr fun index mem => decide_eq_true (valid rank index mem))
  have counts : everyRank (fun rank => bincount size ((indices rank).map embedding.ownerOf))
      = some (sendSplits embedding.ownerOf indices) :=
    everyRank_eq_some.mpr fun rank => bincount_shares (valid.owned rank)
  have sorted : everyRank (fun rank => indexSelect (indices rank) (argsort ((indices rank).map embedding.ownerOf)))
      = some fun rank => sortOn embedding.ownerOf (indices rank) :=
    everyRank_eq_some.mpr fun rank => indexSelect_argsort embedding.ownerOf (indices rank)
  have routed := exchange_shares valid.owned id
  simp only [map_id] at routed
  refine bind_eq_some_iff.mpr ⟨_, flat, bind_eq_some_iff.mpr ⟨_, counts, ?_⟩⟩
  refine bind_eq_some_iff.mpr ⟨_, exchange_sizes, ?_⟩
  exact bind_eq_some_iff.mpr ⟨_, sorted, bind_eq_some_iff.mpr ⟨_, routed, rfl⟩⟩

theorem route_invalid (invalid : ¬ embedding.Valid indices) :
    embedding.route indices = none := by
  unfold route
  cases flat : everyRank fun rank => if ((indices rank).all fun index =>
      0 ≤ index ∧ index < embedding.globalNumEmbeddings) = true then some (indices rank) else none with
  | none => rfl
  | some result =>
    refine absurd (fun rank index mem => ?_) invalid
    have each := everyRank_eq_some.mp flat rank
    split_ifs at each with inside
    exact of_decide_eq_true (all_eq_true.mp inside index mem)

/-! ### The lookup -/

section Lookup

variable {Row : Type} {table : List Row} {indices : Fin size → List ℤ}

theorem rowAt_shard (first : embedding.rowStart rank ≤ index) (last : index < embedding.rowStop rank) :
    rowAt (embedding.shard table rank) (index - embedding.rowStart rank) = rowAt table index := by
  unfold rowAt shard
  rw [if_pos (by omega), if_pos (by omega), getElem?_take_of_lt (by omega), getElem?_drop]
  congr 1
  omega

theorem rows_routed (sized : table.length = embedding.globalNumEmbeddings) {value : ℤ → Row}
    (valued : ∀ index : ℤ, 0 ≤ index → index < table.length → rowAt table index = some (value index))
    (valid : embedding.Valid indices) :
    everyRank (fun rank => indexSelect (embedding.shard table rank) (embedding.places (embedding.sent indices) rank))
      = some fun rank => (received embedding.ownerOf indices rank).map value := by
  refine everyRank_eq_some.mpr fun rank => ?_
  unfold places sent
  rw [indexSelect_iff, forall₂_map_left_iff, forall₂_map_right_iff]
  refine forall₂_same.mpr fun index mem => ?_
  obtain ⟨source, there, owned⟩ := mem_received.mp mem
  obtain ⟨first, last⟩ := ownerOf_iff.mp owned
  obtain ⟨low, high⟩ := valid source index there
  rw [rowAt_shard first last]
  exact valued index low (by omega)

theorem shard_alone (embedding : RowShardedEmbedding 1) (table : List Row)
    (sized : table.length = embedding.globalNumEmbeddings) (rank : Fin 1) : embedding.shard table rank = table := by
  obtain rfl : rank = 0 := Subsingleton.elim _ _
  unfold shard
  rw [Fin.val_zero, rowStop_alone, rowStart_zero, drop_zero, take_of_length_le (by omega)]

/-- **The lookup on all ranks is the lookup in the whole table.** -/
theorem forward_eq (sized : table.length = embedding.globalNumEmbeddings) (indices : Fin size → List ℤ) :
    embedding.forward (embedding.shard table) indices
      = everyRank fun rank => indexSelect table (indices rank) := by
  unfold forward
  by_cases alone : size = 1
  · subst alone
    exact congrArg everyRank (funext fun rank => by rw [shard_alone embedding table sized rank])
  · rw [if_neg alone]
    by_cases valid : embedding.Valid indices
    · have filled : table ≠ [] := fun empty => by
        rw [empty] at sized
        have := embedding.enough.trans_eq sized.symm
        exact absurd embedding.mesh (by simpa using this)
      obtain ⟨first, others, rfl⟩ := exists_cons_of_ne_nil filled
      have valued : ∀ index : ℤ, 0 ≤ index → index < (first :: others).length →
          rowAt (first :: others) index = some ((rowAt (first :: others) index).getD first) := by
        intro index low high
        obtain ⟨row, found⟩ := exists_row ⟨low, high⟩
        rw [found]
        rfl
      have looked : everyRank (fun rank => indexSelect (first :: others) (indices rank))
          = some fun rank => (indices rank).map fun index => (rowAt (first :: others) index).getD first :=
        everyRank_eq_some.mpr fun rank => indexSelect_each fun index mem =>
          valued index (valid rank index mem).1 (by rw [sized]; exact (valid rank index mem).2)
      rw [looked, route_valid valid]
      refine bind_eq_some_iff.mpr ⟨_, rfl, ?_⟩
      refine bind_eq_some_iff.mpr ⟨_, rows_routed sized valued valid, ?_⟩
      refine bind_eq_some_iff.mpr ⟨_, exchange_back valid.owned _, ?_⟩
      exact everyRank_eq_some.mpr fun rank => indexSelect_inverse_map _ _ (indices rank)
    · rw [route_invalid valid]
      cases looked : everyRank fun rank => indexSelect table (indices rank) with
      | none => rfl
      | some result =>
        refine absurd (fun rank index mem => ?_) valid
        obtain ⟨row, -, found⟩ := forall₂_left (indexSelect_iff.mp (everyRank_eq_some.mp looked rank)) mem
        rw [← sized]
        exact rowAt_within found

end Lookup

/-! ### The gradient -/

section Gradient

variable {Row : Type} {indices : Fin size → List ℤ} {gradients : Fin size → List Row}

/-- Every rank has one gradient for each of its indices. -/
def Matching (indices : Fin size → List ℤ) (gradients : Fin size → List Row) : Prop :=
  ∀ rank, (indices rank).length = (gradients rank).length

def requests (indices : Fin size → List ℤ) (gradients : Fin size → List Row) (rank : Fin size) : List (ℤ × Row) :=
  (indices rank).zip (gradients rank)

theorem requests_fst (matching : Matching indices gradients) :
    (fun rank => (requests indices gradients rank).map fst) = indices := by
  funext rank
  exact map_fst_zip (matching rank).le

theorem requests_snd (matching : Matching indices gradients) (rank : Fin size) :
    (requests indices gradients rank).map snd = gradients rank := map_snd_zip (matching rank).ge

variable [AddCommMonoid Row] {Scalar : Type} [DivisionRing Scalar] [Module Scalar Row]

/-- What all ranks sent for a row, each time they looked it up. -/
def incoming (indices : Fin size → List ℤ) (gradients : Fin size → List Row) (row : ℤ) : Row :=
  ((finRange size).map fun rank => sumUnder (indices rank) (gradients rank) row).sum

theorem sum_received (owner : ℤ → ℤ) {row : ℤ} (owned : owner row = (rank.val : ℤ)) :
    (((received (fun entry : ℤ × Row => owner entry.1) (requests indices gradients) rank).filter
      fun entry => entry.1 = row).map snd).sum = incoming indices gradients row := by
  unfold received incoming
  rw [filter_flatMap, map_flatMap, flatMap_def, sum_flatten, map_map]
  refine congrArg sum (map_congr_left fun source _ => ?_)
  dsimp only [Function.comp]
  unfold share requests sumUnder
  rw [filter_filter]
  refine congrArg sum (congrArg (map snd) (filter_congr fun entry _ => ?_))
  by_cases same : entry.1 = row
  · have here : decide (owner entry.1 = (rank.val : ℤ)) = true := decide_eq_true (same ▸ owned)
    rw [decide_eq_true same, here]
    rfl
  · rw [decide_eq_false same]
    rfl

/-- **What an owner adds up for each of its rows is the mean over the ranks of what they sent for it.** -/
theorem backward_eq (valid : embedding.Valid indices) (matching : Matching indices gradients) :
    embedding.backward Scalar indices gradients = some fun rank : Fin size =>
      (range (embedding.rowStop rank - embedding.rowStart rank)).map fun (place : ℕ) =>
        (1 / (size : Scalar)) • incoming indices gradients (embedding.rowStart rank + place) := by
  unfold backward
  by_cases alone : size = 1
  · subst alone
    refine everyRank_eq_some.mpr fun rank => ?_
    obtain rfl : rank = 0 := Subsingleton.elim _ _
    have all : embedding.rowStop (0 : Fin 1).val - embedding.rowStart (0 : Fin 1).val = embedding.globalNumEmbeddings := by
      rw [Fin.val_zero, rowStop_alone, rowStart_zero, Nat.sub_zero]
    rw [all, indexAdd_some (valid 0) (matching 0)]
    refine congrArg some (map_congr_left fun place _ => ?_)
    unfold incoming
    rw [Nat.cast_one, div_one, one_smul, show finRange 1 = [0] from rfl, map_singleton, sum_singleton,
      Fin.val_zero, rowStart_zero, Nat.cast_zero, zero_add]
  · rw [if_neg alone, route_valid valid]
    refine bind_eq_some_iff.mpr ⟨_, rfl, ?_⟩
    have names := requests_fst matching
    -- the gradients, put in the order in which the indices were sent
    have returned : everyRank (fun rank => indexAdd (((embedding.sent indices).order rank).length)
        (argsort ((embedding.sent indices).order rank)) (gradients rank))
          = some fun rank => (sortOn (fun entry : ℤ × Row => embedding.ownerOf entry.1)
              (requests indices gradients rank)).map snd := by
      refine everyRank_eq_some.mpr fun rank => ?_
      have order : (embedding.sent indices).order rank
          = argsort ((requests indices gradients rank).map fun entry => embedding.ownerOf entry.1) := by
        unfold sent
        dsimp only
        rw [← congrFun names rank, map_map]
        rfl
      rw [order]
      refine indexAdd_permutation (argsort_perm _) ?_ ?_
      · rw [length_map, length_sortOn, length_argsort, length_map]
      · rw [indexSelect_inverse_map, requests_snd matching]
    have owned : ∀ rank, Owned size (fun entry : ℤ × Row => embedding.ownerOf entry.1)
        (requests indices gradients rank) := fun rank entry mem =>
      valid.owned rank entry.1 (of_mem_zip mem).1
    have arrived := exchange_shares owned snd
    rw [← recvSplits_map embedding.ownerOf fst, ← sendSplits_map embedding.ownerOf fst, names] at arrived
    refine bind_eq_some_iff.mpr ⟨_, returned, bind_eq_some_iff.mpr ⟨_, arrived, ?_⟩⟩
    refine everyRank_eq_some.mpr fun rank => ?_
    have routed : embedding.places (embedding.sent indices) rank
        = (received (fun entry : ℤ × Row => embedding.ownerOf entry.1) (requests indices gradients) rank).map
            fun entry : ℤ × Row => entry.1 - (embedding.rowStart rank : ℤ) := by
      have items := received_map embedding.ownerOf fst (requests indices gradients) rank
      rw [names] at items
      unfold places sent
      dsimp only
      rw [items, map_map]
      rfl
    rw [routed]
    unfold scaled
    rw [map_map, indexAdd_some ?_ (by rw [length_map, length_map])]
    · refine congrArg some (map_congr_left fun place inside => ?_)
      rw [sumUnder_map]
      have below := mem_range.mp inside
      have owner : embedding.ownerOf (embedding.rowStart rank + place) = rank.val :=
        ownerOf_iff.mpr ⟨by omega, by omega⟩
      rw [← sum_received embedding.ownerOf owner, smul_sum, map_map]
      refine congrArg sum (congrArg _ (filter_congr fun entry _ => ?_))
      exact decide_eq_decide.mpr ⟨fun same => by omega, fun same => by omega⟩
    · intro id mem
      obtain ⟨entry, there, rfl⟩ := mem_map.mp mem
      obtain ⟨source, -, mine⟩ := mem_received.mp there
      obtain ⟨first, last⟩ := ownerOf_iff.mp mine
      omega

end Gradient

/-! ### The embedding -/

/-- What dividing the rows of a table among the ranks does: the rows of the ranks are a partition of
those of the table, an index is sent to the rank that has its row, a lookup is one in the whole table,
and what is added up for a row is the mean over the ranks of what they sent for it. -/
structure Sharded {Row : Type} [AddCommMonoid Row] (Scalar : Type) [DivisionRing Scalar] [Module Scalar Row]
    (embedding : RowShardedEmbedding size) (table : List Row) : Prop where
  filled : ∀ rank : Fin size, embedding.rowStart rank < embedding.rowStop rank ∧
    embedding.rowStop rank ≤ embedding.globalNumEmbeddings
  partition : ∀ row < embedding.globalNumEmbeddings,
    ∃! rank : Fin size, embedding.rowStart rank ≤ row ∧ row < embedding.rowStop rank
  owner : ∀ row : ℕ, row < embedding.globalNumEmbeddings → ∀ rank : Fin size,
    embedding.ownerOf row = (rank.val : ℤ) ↔ embedding.rowStart rank ≤ row ∧ row < embedding.rowStop rank
  lookup : ∀ indices : Fin size → List ℤ, embedding.forward (embedding.shard table) indices
    = everyRank fun rank => indexSelect table (indices rank)
  gradient : ∀ (indices : Fin size → List ℤ) (gradients : Fin size → List Row), embedding.Valid indices →
    Matching indices gradients → embedding.backward Scalar indices gradients = some fun rank : Fin size =>
      (range (embedding.rowStop rank - embedding.rowStart rank)).map fun (place : ℕ) =>
        (1 / (size : Scalar)) • incoming indices gradients (embedding.rowStart rank + place)

theorem exists_holder {row : ℕ} (inside : row < embedding.globalNumEmbeddings) :
    ∃! rank : Fin size, embedding.rowStart rank ≤ row ∧ row < embedding.rowStop rank := by
  have low : (0 : ℤ) ≤ row := Int.natCast_nonneg row
  have high : (row : ℤ) < embedding.globalNumEmbeddings := Int.ofNat_lt.mpr inside
  obtain ⟨first, last⟩ := ownerOf_range low high
  obtain ⟨rank, same⟩ := Int.eq_ofNat_of_zero_le first
  have holds := ownerOf_iff.mp same
  refine ⟨⟨rank, by omega⟩, ⟨Int.ofNat_le.mp holds.1, Int.ofNat_lt.mp holds.2⟩, fun other there => Fin.ext ?_⟩
  have same' := ownerOf_iff.mpr ⟨Int.ofNat_le.mpr there.1, Int.ofNat_lt.mpr there.2⟩
  show other.val = rank
  omega

/-- **An embedding divided among the ranks is the embedding.** -/
theorem row_sharded {Row : Type} [AddCommMonoid Row] (Scalar : Type) [DivisionRing Scalar] [Module Scalar Row]
    (embedding : RowShardedEmbedding size) (table : List Row)
    (sized : table.length = embedding.globalNumEmbeddings) : Sharded Scalar embedding table where
  filled rank := ⟨rowStart_lt rank, rowStop_le rank⟩
  partition _ inside := exists_holder inside
  owner row _ rank := by
    rw [ownerOf_iff, Int.ofNat_le, Int.ofNat_lt]
  lookup := forward_eq sized
  gradient _ _ := backward_eq

theorem three_rows_sharded : Sharded ℚ (⟨3, by decide, by decide⟩ : RowShardedEmbedding 2) [(10 : ℚ), 20, 30] :=
  row_sharded ℚ ⟨3, by decide, by decide⟩ [10, 20, 30] rfl

end RowShardedEmbedding

end TinyDSV41.Model
