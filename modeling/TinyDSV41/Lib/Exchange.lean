/-
**Ranks that exchange what they hold.**

A job runs one program on all its ranks. Each step of it is a function of the rank, and a collective is a
function of what all ranks bring.

* `everyRank` — a local step that may fail runs on all ranks.
* `exchange` — every rank sends a piece of its tensor to every rank.
* `exchange_segments` — if the sizes agree, a rank receives the pieces for it, in the order of the ranks.
* `exchange_shares`, `exchange_back` — items sent to their owners, and what the owners made of them sent
  back.
-/

import TinyDSV41.Lib.Argsort
import Mathlib.Data.List.FinRange
import Mathlib.Data.List.Perm.Basic
import Mathlib.Algebra.GroupWithZero.Nat

namespace TinyDSV41.Lib

open List

variable {Item Other : Type} {size : ℕ}

def everyRank (run : Fin size → Option Item) : Option (Fin size → Item) :=
  if all : ((finRange size).all fun rank => (run rank).isSome) = true then
    some fun rank => (run rank).get (all_eq_true.mp all rank (mem_finRange rank))
  else none

theorem everyRank_eq_some {run : Fin size → Option Item} {result : Fin size → Item} :
    everyRank run = some result ↔ ∀ rank, run rank = some (result rank) := by
  unfold everyRank
  split_ifs with all
  · rw [Option.some_inj]
    constructor
    · rintro rfl rank
      exact (Option.some_get _).symm
    · intro each
      funext rank
      exact Option.get_of_eq_some _ (each rank)
  · refine ⟨nofun, fun each => absurd ?_ all⟩
    exact all_eq_true.mpr fun rank _ => by rw [each rank]; rfl

def pieces : List ℕ → List Item → List (List Item)
  | [], _ => []
  | length :: lengths, items => items.take length :: pieces lengths (items.drop length)

/-- The sizes that ranks send and receive agree, and each rank sends all it has. -/
def agree (outputSplits inputSplits : Fin size → List ℕ) (tensors : Fin size → List Item) : Bool :=
  (finRange size).all fun rank =>
    (inputSplits rank).length == size && (outputSplits rank).length == size
      && (inputSplits rank).sum == (tensors rank).length
      && (finRange size).all fun source => (outputSplits rank)[source.val]? == (inputSplits source)[rank.val]?

/-- `all_to_all_single` with the sizes of the pieces. -/
def exchange (outputSplits inputSplits : Fin size → List ℕ) (tensors : Fin size → List Item) :
    Option (Fin size → List Item) :=
  if agree outputSplits inputSplits tensors = true then
    some fun rank => (finRange size).flatMap fun source =>
      ((pieces (inputSplits source) (tensors source))[rank.val]?).getD []
  else none

/-- `all_to_all_single` without sizes: pieces of equal length. -/
def exchangeEven (tensors : Fin size → List Item) : Option (Fin size → List Item) :=
  exchange (fun rank => replicate size ((tensors rank).length / size))
    (fun rank => replicate size ((tensors rank).length / size)) tensors

theorem pieces_flatten (segments : List (List Item)) :
    pieces (segments.map length) segments.flatten = segments := by
  induction segments with
  | nil => rfl
  | cons segment segments known =>
    rw [map_cons, flatten_cons, pieces, take_left, drop_left, known]

theorem getElem?_finRange (value : Fin size → Item) (rank : Fin size) :
    ((finRange size).map value)[rank.val]? = some (value rank) := by
  rw [getElem?_map, getElem?_eq_getElem (by rw [length_finRange]; exact rank.2), getElem_finRange]
  rfl

/-- **A rank receives the pieces for it, in the order of the ranks they come from.** -/
theorem exchange_segments (segment : Fin size → Fin size → List Item) :
    exchange (fun rank => (finRange size).map fun source => (segment source rank).length)
        (fun rank => (finRange size).map fun target => (segment rank target).length)
        (fun rank => (finRange size).flatMap (segment rank))
      = some fun rank => (finRange size).flatMap fun source => segment source rank := by
  have sizes : agree (fun rank => (finRange size).map fun source => (segment source rank).length)
      (fun rank => (finRange size).map fun target => (segment rank target).length)
      (fun rank => (finRange size).flatMap (segment rank)) = true := by
    refine all_eq_true.mpr fun rank _ => ?_
    simp only [Bool.and_eq_true, beq_iff_eq, all_eq_true, length_map, length_finRange,
      length_flatMap, true_and]
    intro source _
    rw [getElem?_finRange fun source => (segment source rank).length,
      getElem?_finRange fun target => (segment source target).length]
  unfold exchange
  rw [if_pos sizes]
  refine congrArg some (funext fun rank => flatMap_congr fun source _ => ?_)
  have split := pieces_flatten ((finRange size).map (segment source))
  rw [map_map, ← flatMap_def] at split
  show ((pieces ((finRange size).map (length ∘ segment source)) _)[rank.val]?).getD [] = _
  rw [split, getElem?_finRange]
  rfl

theorem exchange_even (value : Fin size → Fin size → Item) :
    exchangeEven (fun rank => (finRange size).map (value rank))
      = some fun rank => (finRange size).map fun source => value source rank := by
  have single := exchange_segments fun rank target => [value rank target]
  have splits : ∀ rank : Fin size, replicate size (((finRange size).map (value rank)).length / size)
        = (finRange size).map fun _ => 1 := by
    intro rank
    rw [length_map, length_finRange, Nat.div_self (Nat.zero_lt_of_lt rank.2), map_const', length_finRange]
  unfold exchangeEven
  rw [funext splits]
  simp only [length_singleton, ← map_eq_flatMap] at single
  exact single

/-! ### Items and their owners -/

/-- `torch.bincount`, of values that are not negative. -/
def bincount (minlength : ℕ) (values : List ℤ) : Option (List ℕ) :=
  if (values.all fun value => 0 ≤ value) = true then
    some ((range (values.foldr (fun value longest => max (value + 1).toNat longest) minlength)).map
      fun (value : ℕ) => values.count (value : ℤ))
  else none

theorem bincount_below {minlength : ℕ} {values : List ℤ} (inside : ∀ value ∈ values, 0 ≤ value ∧ value < minlength) :
    bincount minlength values
      = some ((range minlength).map fun (value : ℕ) => values.count (value : ℤ)) := by
  have longest : values.foldr (fun value => max (value + 1).toNat) minlength = minlength := by
    induction values with
    | nil => rfl
    | cons value values known =>
      obtain ⟨here, later⟩ := forall_mem_cons.mp inside
      rw [foldr_cons, known later]
      omega
  unfold bincount
  rw [if_pos (all_eq_true.mpr fun value mem => decide_eq_true (inside value mem).1), longest]

theorem ediv_eq_iff {value divisor quotient : ℤ} (positive : 0 < divisor) :
    value / divisor = quotient ↔ quotient * divisor ≤ value ∧ value < (quotient + 1) * divisor := by
  rw [← Int.le_ediv_iff_mul_le positive, ← Int.ediv_lt_iff_lt_mul positive, le_antisymm_iff, and_comm]
  exact and_congr_right fun _ => Int.lt_add_one_iff.symm

def share (owner : Item → ℤ) (items : Fin size → List Item) (source target : Fin size) : List Item :=
  (items source).filter fun item => owner item = (target.val : ℤ)

def received (owner : Item → ℤ) (items : Fin size → List Item) (rank : Fin size) : List Item :=
  (finRange size).flatMap fun source => share owner items source rank

def sendSplits (owner : Item → ℤ) (items : Fin size → List Item) (rank : Fin size) : List ℕ :=
  (finRange size).map fun target => (share owner items rank target).length

def recvSplits (owner : Item → ℤ) (items : Fin size → List Item) (rank : Fin size) : List ℕ :=
  (finRange size).map fun source => (share owner items source rank).length

/-- Every item has a rank as its owner. -/
def Owned (size : ℕ) (owner : Item → ℤ) (items : List Item) : Prop :=
  ∀ item ∈ items, 0 ≤ owner item ∧ owner item < size

variable {owner : Item → ℤ} {items : Fin size → List Item} {rank : Fin size} {item : Item}

theorem range_eq_finRange (size : ℕ) (value : ℕ → Item) :
    (range size).map value = (finRange size).map fun rank => value rank.val := by
  rw [← map_coe_finRange_eq_range, map_map]
  rfl

theorem sortOn_shares (owned : Owned size owner (items rank)) :
    sortOn owner (items rank) = (finRange size).flatMap (share owner items rank) := by
  have ranks : ((range size).map fun (value : ℕ) => (value : ℤ)).Pairwise (· < ·) :=
    pairwise_map.mpr (pairwise_lt_range.imp Int.ofNat_lt.mpr)
  have all : ∀ item ∈ items rank, owner item ∈ (range size).map fun (value : ℕ) => (value : ℤ) := by
    intro item mem
    obtain ⟨low, high⟩ := owned item mem
    exact mem_map.mpr ⟨(owner item).toNat, mem_range.mpr (by omega), Int.toNat_of_nonneg low⟩
  rw [sortOn_eq_flatMap ranks all, range_eq_finRange, flatMap_map]
  rfl

theorem bincount_shares (owned : Owned size owner (items rank)) :
    bincount size ((items rank).map owner) = some (sendSplits owner items rank) := by
  rw [bincount_below (forall_mem_map.mpr owned), range_eq_finRange]
  refine congrArg some (map_congr_left fun target _ => ?_)
  rw [count_eq_countP, countP_map, countP_eq_length_filter]
  refine congrArg length (filter_congr fun item _ => ?_)
  rfl

/-- **Items in the order of their owners arrive at their owners.** -/
theorem exchange_shares (owned : ∀ rank, Owned size owner (items rank)) (change : Item → Other) :
    exchange (recvSplits owner items) (sendSplits owner items) (fun rank => (sortOn owner (items rank)).map change)
      = some fun rank => (received owner items rank).map change := by
  have sent := exchange_segments fun source target => (share owner items source target).map change
  simp only [length_map, ← map_flatMap, ← sortOn_shares (owned _)] at sent
  exact sent

/-- **What the owners made of the items arrives back, in the order in which they were sent.** -/
theorem exchange_back (owned : ∀ rank, Owned size owner (items rank)) (work : Item → Other) :
    exchange (sendSplits owner items) (recvSplits owner items) (fun rank => (received owner items rank).map work)
      = some fun rank => (sortOn owner (items rank)).map work := by
  have sent := exchange_segments fun source target => (share owner items target source).map work
  simp only [length_map, ← map_flatMap, ← sortOn_shares (owned _)] at sent
  exact sent

theorem flatMap_comm {First Second : Type} (firsts : List First) (seconds : List Second)
    (between : First → Second → List Item) :
    (firsts.flatMap fun first => seconds.flatMap (between first)).Perm
      (seconds.flatMap fun second => firsts.flatMap fun first => between first second) := by
  induction firsts with
  | nil =>
    rw [flatMap_nil]
    exact (flatMap_eq_nil_iff.mpr fun _ _ => rfl) ▸ List.Perm.refl _
  | cons first firsts known =>
    refine (known.append_left _).trans (flatMap_append_perm seconds (between first) _ |>.trans ?_)
    refine List.Perm.of_eq (flatMap_congr fun second _ => ?_)
    rw [flatMap_cons]

/-- **Each item arrives at one rank, once.** -/
theorem received_perm (owned : ∀ rank, Owned size owner (items rank)) :
    ((finRange size).flatMap (received owner items)).Perm ((finRange size).flatMap items) := by
  refine (flatMap_comm (finRange size) (finRange size) fun rank source =>
    share owner items source rank).trans ?_
  refine List.Perm.flatMap_left _ fun source _ => ?_
  rw [← sortOn_shares (owned source)]
  exact sortOn_perm owner (items source)

theorem share_map (owner : Other → ℤ) (change : Item → Other) (items : Fin size → List Item)
    (source target : Fin size) : share owner (fun rank => (items rank).map change) source target
      = (share (fun item => owner (change item)) items source target).map change := by
  unfold share
  rw [filter_map]
  rfl

theorem sendSplits_map (owner : Other → ℤ) (change : Item → Other) (items : Fin size → List Item) :
    sendSplits owner (fun rank => (items rank).map change) = sendSplits (fun item => owner (change item)) items := by
  funext rank
  exact map_congr_left fun target _ => by rw [share_map, length_map]

theorem recvSplits_map (owner : Other → ℤ) (change : Item → Other) (items : Fin size → List Item) :
    recvSplits owner (fun rank => (items rank).map change) = recvSplits (fun item => owner (change item)) items := by
  funext rank
  exact map_congr_left fun source _ => by rw [share_map, length_map]

theorem received_map (owner : Other → ℤ) (change : Item → Other) (items : Fin size → List Item)
    (rank : Fin size) : received owner (fun rank => (items rank).map change) rank
      = (received (fun item => owner (change item)) items rank).map change := by
  unfold received
  rw [map_flatMap]
  exact flatMap_congr fun source _ => share_map owner change items source rank

theorem exchange_sizes :
    exchangeEven (sendSplits owner items) = some (recvSplits owner items) :=
  exchange_even fun source target => (share owner items source target).length

theorem mem_received : item ∈ received owner items rank ↔
    ∃ source, item ∈ items source ∧ owner item = (rank.val : ℤ) := by
  unfold received share
  simp [mem_flatMap, mem_filter]

end TinyDSV41.Lib
