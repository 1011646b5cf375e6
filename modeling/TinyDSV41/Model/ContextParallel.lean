/-
**Rows divided among ranks, and what their queries attend to.**

A tensor is given by its tokens: at each position, the values of all rows of the batch.

* `shard`, `gather`, `leftHalo` — the part of a rank, all parts, and the own part after the tail of the
  previous one.
* `ModelContext.build` — the positions of a rank, and for each query the keys of its window.
* `gathered_key` — what an index of a rank addresses after `gatherAttention` is the token that it addresses
  without ranks.
* `context_parallel` — this, the same masks, and that valid edges are causal, live and of one sequence.
-/

import TinyDSV41.Lib.Segments

namespace TinyDSV41.Model.ContextParallel

open List Lib

variable {rows size : ℕ} {Item : Type}

/-- `ContextParallel.shard` -/
def shard (size rank : ℕ) (tensor : List Item) : Except String (List Item) :=
  let length := tensor.length
  if size ≤ 1 then .ok tensor
  else if length % size ≠ 0 then .error s!"tensor dimension 1 ({length}) must divide CP size ({size})"
  else .ok (slice (length / size) tensor rank)

/-- `ContextParallel.gather`, on all ranks. -/
def gather (tensors : Fin size → List Item) : Fin size → List Item :=
  if size ≤ 1 then tensors else fun _ => (finRange size).flatMap tensors

/-- The sizes of pieces of which only one is not empty. -/
def ringSplits (size other tokens : ℕ) : List ℕ := (replicate size 0).set other tokens

/-- `_ring_exchange` with the next rank. -/
def ringExchange (length : ℕ) (tensors : Fin size → List Item) : Option (Fin size → List Item) :=
  exchange (fun rank => ringSplits size ((rank.val + size - 1) % size) length)
    (fun rank => ringSplits size ((rank.val + 1) % size) length) tensors

/-- `ContextParallel.left_halo`, on all ranks. -/
def leftHalo (length : ℕ) (tensors : Fin size → List Item) : Option (Fin size → List Item) :=
  if size ≤ 1 ∨ length = 0 then some tensors
  else if ((finRange size).all fun rank => decide (length ≤ (tensors rank).length)) = true then do
    let prefixes ← ringExchange length fun rank => (tensors rank).drop ((tensors rank).length - length)
    some fun rank => if rank.val = 0 then tensors rank else prefixes rank ++ tensors rank
  else none

structure Batch (rows : ℕ) where
  inputIds : List (Fin rows → ℤ)
  tokenMask : List (Fin rows → Bool)
  sequenceIds : List (Fin rows → ℤ)
  maskLength : tokenMask.length = inputIds.length
  sequenceLength : sequenceIds.length = inputIds.length

structure Window where
  length : ℕ
  positive : 0 < length

def valueAt (default : Item) (tensor : List (Fin rows → Item)) (index : ℕ) (row : Fin rows) : Item :=
  (tensor[index]?.map (· row)).getD default

namespace Batch

variable (batch : Batch rows)

def live (index : ℕ) (row : Fin rows) : Bool := valueAt false batch.tokenMask index row

def sequence (index : ℕ) (row : Fin rows) : ℤ := valueAt (-1) batch.sequenceIds index row

/-- `token_mask & (sequence_ids != F.pad(sequence_ids[:, :-1], (1, 0), value=-1))` -/
def starts (index : ℕ) (row : Fin rows) : Bool :=
  batch.live index row && batch.sequence index row != if index = 0 then -1 else batch.sequence (index - 1) row

/-- `torch.where(starts, indices, 0).cummax(-1).values` -/
def lastStart (index : ℕ) (row : Fin rows) : ℕ :=
  (range (index + 1)).foldl (fun latest place => max latest (if batch.starts place row = true then place else 0)) 0

def positions : List (Fin rows → ℤ) :=
  (range batch.inputIds.length).map fun index row =>
    if batch.live index row = true then (index : ℤ) - batch.lastStart index row else 0

end Batch

structure ModelContext (rows : ℕ) where
  inputIds : List (Fin rows → ℤ)
  positions : List (Fin rows → ℤ)
  tokenMask : List (Fin rows → Bool)
  sequenceIds : List (Fin rows → ℤ)
  attentionIndices : List (Fin rows → List ℤ)
  attentionMask : List (Fin rows → List Bool)
  attentionHaloLength : ℕ

/-- `local_indices.unsqueeze(-1) - torch.arange(window - 1, -1, -1)` at a position. -/
def keyIndices (window : ℕ) (index : ℕ) : List ℤ :=
  (range window).map fun (place : ℕ) => (index : ℤ) - ((window : ℤ) - 1 - place)

/-- `ModelContext.build` -/
def ModelContext.build (size rank : ℕ) (batch : Batch rows) (window : Window) : Except String (ModelContext rows) := do
  let localIndices ← shard size rank (range batch.inputIds.length)
  let localInput ← shard size rank batch.inputIds
  let localPositions ← shard size rank batch.positions
  let localMask ← shard size rank batch.tokenMask
  let localSequences ← shard size rank batch.sequenceIds
  let localLength := localInput.length
  let haloLength := if 1 < size ∧ window.length - 1 ≤ localLength then window.length - 1 else 0
  let localStart := rank * localLength
  let prefixLength := if rank = 0 then 0 else haloLength
  .ok {
    inputIds := localInput
    positions := localPositions
    tokenMask := localMask
    sequenceIds := localSequences
    attentionIndices := localIndices.map fun index _ => (keyIndices window.length index).map fun key =>
      if haloLength ≠ 0 then max key 0 - localStart + prefixLength else max key 0
    attentionMask := localIndices.zipIdx.map fun entry row => (keyIndices window.length entry.1).map fun key =>
      decide (0 ≤ key) && batch.live (max key 0).toNat row && valueAt false localMask entry.2 row
        && valueAt (-1) localSequences entry.2 row == batch.sequence (max key 0).toNat row
    attentionHaloLength := haloLength }

/-- `ModelContext.gather_attention`, on all ranks. -/
def gatherAttention (haloLength : ℕ) (tensors : Fin size → List Item) : Option (Fin size → List Item) :=
  if haloLength ≠ 0 then leftHalo haloLength tensors else some (gather tensors)

/-! ### Parts of ranks -/

variable {rank : ℕ} {batch : Batch rows} {window : Window}
variable {tensor : List Item} {length : ℕ}

theorem shard_eq (sized : tensor.length = length) (divides : size ∣ length) (below : rank < size) :
    shard size rank tensor = .ok (slice (length / size) tensor rank) := by
  subst sized
  unfold shard
  by_cases single : size ≤ 1
  · have one : size = 1 := by omega
    have zero : rank = 0 := by omega
    subst one zero
    rw [if_pos single, Nat.div_one, slice, Nat.zero_mul, drop_zero, take_length]
  · rw [if_neg single, if_neg (not_not.mpr (Nat.mod_eq_zero_of_dvd divides))]

def maskAt (batch : Batch rows) (window : Window) (index : ℕ) (row : Fin rows) : List Bool :=
  (keyIndices window.length index).map fun key =>
    decide (0 ≤ key) && batch.live (max key 0).toNat row && batch.live index row
      && batch.sequence index row == batch.sequence (max key 0).toNat row

def haloOf (size localLength : ℕ) (window : Window) : ℕ :=
  if 1 < size ∧ window.length - 1 ≤ localLength then window.length - 1 else 0

/-- The index of a key in what a rank gathers. -/
def addressOf (halo localStart prefixLength : ℕ) (key : ℤ) : ℤ :=
  if halo ≠ 0 then max key 0 - localStart + prefixLength else max key 0

def contextOf (size rank : ℕ) (batch : Batch rows) (window : Window) : ModelContext rows :=
  let localLength := batch.inputIds.length / size
  let halo := haloOf size localLength window
  { inputIds := slice localLength batch.inputIds rank
    positions := slice localLength batch.positions rank
    tokenMask := slice localLength batch.tokenMask rank
    sequenceIds := slice localLength batch.sequenceIds rank
    attentionIndices := (range localLength).map fun query _ =>
      (keyIndices window.length (rank * localLength + query)).map
        (addressOf halo (rank * localLength) (if rank = 0 then 0 else halo))
    attentionMask := (range localLength).map fun query => maskAt batch window (rank * localLength + query)
    attentionHaloLength := halo }

theorem length_part (sized : tensor.length = length) (divides : size ∣ length) (below : rank < size) :
    (slice (length / size) tensor rank).length = length / size := by
  obtain ⟨part, rfl⟩ := divides
  rw [length_slice, sized, Nat.mul_div_cancel_left _ (Nat.zero_lt_of_lt below)]
  have : (rank + 1) * part ≤ size * part := Nat.mul_le_mul_right _ below
  rw [Nat.succ_mul] at this
  omega

theorem part_within (divides : size ∣ length) (below : rank < size) :
    (rank + 1) * (length / size) ≤ length := by
  obtain ⟨part, rfl⟩ := divides
  rw [Nat.mul_div_cancel_left _ (Nat.zero_lt_of_lt below)]
  exact Nat.mul_le_mul_right _ below

variable {query : ℕ}

theorem valueAt_slice {default : Item} {tensor : List (Fin rows → Item)} {part : ℕ}
    (inside : query < part) :
    valueAt default (slice part tensor rank) query = valueAt default tensor (rank * part + query) := by
  unfold valueAt
  rw [slice_getElem? inside]

theorem build_eq (divides : size ∣ batch.inputIds.length) (below : rank < size) :
    ModelContext.build size rank batch window = .ok (contextOf size rank batch window) := by
  unfold ModelContext.build
  rw [shard_eq length_range divides below, shard_eq rfl divides below,
    shard_eq (by unfold Batch.positions; rw [length_map, length_range]) divides below,
    shard_eq batch.maskLength divides below, shard_eq batch.sequenceLength divides below]
  have indices : slice (batch.inputIds.length / size) (range batch.inputIds.length) rank
      = (range (batch.inputIds.length / size)).map fun query => rank * (batch.inputIds.length / size) + query := by
    rw [← map_id (range batch.inputIds.length), slice_map_range id (part_within divides below)]
    rfl
  have parts : (slice (batch.inputIds.length / size) batch.inputIds rank).length = batch.inputIds.length / size :=
    length_part rfl divides below
  simp only [indices, parts, bind, Except.bind]
  refine congrArg Except.ok ?_
  congr 1
  · rw [map_map]
    rfl
  · rw [zipIdx_map, zipIdx_range, map_map, map_map]
    refine map_congr_left fun query mem => ?_
    have inside := mem_range.mp mem
    funext row
    refine map_congr_left fun key _ => ?_
    dsimp only [Function.comp, Prod.map, id]
    rw [valueAt_slice inside, valueAt_slice inside]
    rfl

/-! ### What a rank gathers -/

def partsOf (size : ℕ) (tensor : List Item) (rank : Fin size) : List Item :=
  slice (tensor.length / size) tensor rank

theorem flatMap_single {Index : Type} [DecidableEq Index] {indices : List Index} (distinct : indices.Nodup) {one : Index}
    (listed : one ∈ indices) (value : Index → List Item) :
    (indices.flatMap fun index => if index = one then value index else []) = value one := by
  induction indices with
  | nil => cases listed
  | cons index indices known =>
    obtain ⟨fresh, distinct⟩ := nodup_cons.mp distinct
    rw [flatMap_cons]
    by_cases here : index = one
    · subst here
      have rest : (indices.flatMap fun other => if other = index then value other else []) = [] :=
        flatMap_eq_nil_iff.mpr fun other mem => if_neg fun same => fresh (by rw [← same]; exact mem)
      rw [if_pos rfl, rest, append_nil]
    · rw [if_neg here, nil_append]
      exact known distinct ((mem_cons.mp listed).resolve_left fun same => here same.symm)

theorem ringSplits_eq (other tokens : ℕ) :
    ringSplits size other tokens = (finRange size).map fun rank => if rank.val = other then tokens else 0 := by
  unfold ringSplits
  refine ext_getElem (by simp) fun place one two => ?_
  rw [getElem_set, getElem_map, getElem_finRange, getElem_replicate]
  refine if_congr ?_ rfl rfl
  exact eq_comm

def previous (rank : Fin size) : Fin size :=
  ⟨(rank.val + size - 1) % size, Nat.mod_lt _ (Nat.zero_lt_of_lt rank.2)⟩

theorem previous_iff (source rank : Fin size) : rank.val = (source.val + 1) % size ↔ source = previous rank := by
  rw [Fin.ext_iff]
  show _ ↔ source.val = (rank.val + size - 1) % size
  have next : (source.val + 1) % size = if source.val + 1 = size then 0 else source.val + 1 := by
    by_cases last : source.val + 1 = size
    · rw [if_pos last, last, Nat.mod_self]
    · rw [if_neg last, Nat.mod_eq_of_lt (by omega)]
  have before : (rank.val + size - 1) % size = if rank.val = 0 then size - 1 else rank.val - 1 := by
    by_cases first : rank.val = 0
    · rw [if_pos first, first, Nat.zero_add, Nat.mod_eq_of_lt (by omega)]
    · rw [if_neg first, show rank.val + size - 1 = rank.val - 1 + size by omega, Nat.add_mod_right,
        Nat.mod_eq_of_lt (by omega)]
  rw [next, before]
  split_ifs <;> omega

def next (rank : Fin size) : Fin size := ⟨(rank.val + 1) % size, Nat.mod_lt _ (Nat.zero_lt_of_lt rank.2)⟩

theorem next_iff (source rank : Fin size) : rank = next source ↔ source = previous rank := by
  rw [← previous_iff, Fin.ext_iff]
  rfl

variable {tails : Fin size → List Item}

/-- **What each rank sends to one other arrives there.** -/
theorem exchange_ring {target source : Fin size → Fin size}
    (inverse : ∀ rank other, other = target rank ↔ rank = source other)
    (sized : ∀ rank, (tails rank).length = length) :
    exchange (fun rank => ringSplits size (source rank) length) (fun rank => ringSplits size (target rank) length) tails
      = some fun rank => tails (source rank) := by
  have moved := exchange_segments fun (rank other : Fin size) => if other = target rank then tails rank else []
  have sends : (fun rank : Fin size => (finRange size).map fun other =>
      (if other = target rank then tails rank else []).length) = fun rank => ringSplits size (target rank) length := by
    funext rank
    rw [ringSplits_eq]
    refine map_congr_left fun other _ => ?_
    rw [apply_ite List.length, sized]
    exact if_congr Fin.ext_iff rfl rfl
  have receives : (fun rank : Fin size => (finRange size).map fun other =>
      (if rank = target other then tails other else []).length) = fun rank => ringSplits size (source rank) length := by
    funext rank
    rw [ringSplits_eq]
    refine map_congr_left fun other _ => ?_
    rw [apply_ite List.length, sized]
    exact if_congr ((inverse other rank).trans Fin.ext_iff) rfl rfl
  have single (value : Fin size → List Item) (one : Fin size) :
      ((finRange size).flatMap fun other => if other = one then value other else []) = value one :=
    flatMap_single (nodup_finRange size) (mem_finRange one) value
  rw [receives, sends, funext fun rank => single (fun _ => tails rank) (target rank)] at moved
  rw [moved]
  simp only [inverse]
  exact congrArg some (funext fun rank => single tails (source rank))

/-- **The tail of each rank arrives at the next one.** -/
theorem ringExchange_eq (sized : ∀ rank, (tails rank).length = length) :
    ringExchange length tails = some fun rank => tails (previous rank) :=
  exchange_ring next_iff sized

theorem parts_flatten (divides : size ∣ tensor.length) :
    (finRange size).flatMap (partsOf size tensor) = tensor := by
  have all := flatMap_slice (tensor.length / size) tensor size
  rw [Nat.mul_div_cancel' divides, take_length, flatMap_def, range_eq_finRange, ← flatMap_def] at all
  exact all

/-- What a rank has after `gatherAttention`. -/
def gatheredOf (halo : ℕ) (tensor : List Item) (rank : Fin size) : List Item :=
  if halo = 0 then tensor
  else if rank.val = 0 then partsOf size tensor rank
  else (partsOf size tensor (previous rank)).drop (tensor.length / size - halo) ++ partsOf size tensor rank

theorem gatherAttention_eq {halo : ℕ} (divides : size ∣ tensor.length)
    (fits : halo ≤ tensor.length / size) (many : halo ≠ 0 → 1 < size) :
    gatherAttention halo (partsOf size tensor) = some (gatheredOf halo tensor) := by
  have sized : ∀ rank : Fin size, (partsOf size tensor rank).length = tensor.length / size :=
    fun rank => length_part rfl divides rank.2
  unfold gatherAttention
  by_cases none_ : halo = 0
  · rw [if_neg (not_not.mpr none_)]
    refine congrArg some (funext fun rank => ?_)
    unfold gather gatheredOf
    rw [if_pos none_]
    by_cases single : size ≤ 1
    · have one : size = 1 := by
        have := rank.2
        omega
      subst one
      rw [if_pos single, partsOf, Nat.div_one, slice, Fin.val_eq_zero rank, Nat.zero_mul, drop_zero,
        take_length]
    · rw [if_neg single]
      exact parts_flatten divides
  · have tails : ∀ rank : Fin size,
        ((partsOf size tensor rank).drop ((partsOf size tensor rank).length - halo)).length = halo := by
      intro rank
      rw [length_drop, sized]
      omega
    have enough : ((finRange size).all fun rank => decide (halo ≤ (partsOf size tensor rank).length)) = true :=
      all_eq_true.mpr fun rank _ => decide_eq_true (by rw [sized]; exact fits)
    rw [if_pos none_]
    unfold leftHalo
    rw [if_neg (by omega), if_pos enough]
    refine Option.bind_eq_some_iff.mpr ⟨_, ringExchange_eq tails, congrArg some (funext fun rank => ?_)⟩
    unfold gatheredOf
    rw [if_neg none_, sized]

theorem rowAt_nat (table : List Item) (place : ℕ) : rowAt table (place : ℤ) = table[place]? := by
  unfold rowAt
  rw [if_pos (Int.natCast_nonneg place), Int.toNat_natCast]

variable {index : ℕ}

theorem mem_keyIndices {key : ℤ} (mem : key ∈ keyIndices window.length index) :
    key ≤ index ∧ (index : ℤ) < key + window.length := by
  obtain ⟨place, inside, rfl⟩ := mem_map.mp mem
  have := mem_range.mp inside
  omega

/-- **What a rank's index of a key addresses is the token of the key.** -/
theorem gathered_key {rank : Fin size} {key : ℤ} (divides : size ∣ tensor.length)
    (inside : query < tensor.length / size)
    (mem : key ∈ keyIndices window.length (rank.val * (tensor.length / size) + query)) :
    rowAt (gatheredOf (haloOf size (tensor.length / size) window) tensor rank)
        (addressOf (haloOf size (tensor.length / size) window) (rank.val * (tensor.length / size))
          (if rank.val = 0 then 0 else haloOf size (tensor.length / size) window) key)
      = rowAt tensor (max key 0) := by
  have span := mem_keyIndices mem
  have bound : haloOf size (tensor.length / size) window ≠ 0 →
      haloOf size (tensor.length / size) window = window.length - 1 ∧ window.length - 1 ≤ tensor.length / size := by
    unfold haloOf
    split_ifs with fits
    · exact fun _ => ⟨rfl, fits.2⟩
    · exact absurd rfl
  generalize haloOf size (tensor.length / size) window = halo at bound ⊢
  generalize partEq : tensor.length / size = part at inside mem span bound ⊢
  unfold gatheredOf addressOf
  by_cases none_ : halo = 0
  · rw [if_pos none_, if_neg (not_not.mpr none_)]
  · rw [if_neg none_, if_pos none_]
    by_cases first : rank.val = 0
    · -- The first rank has no halo, and its keys are its own.
      obtain ⟨place, whole⟩ := Int.eq_ofNat_of_zero_le (le_max_right key 0)
      rw [first, Nat.zero_mul] at span
      rw [if_pos first, if_pos first, first, Nat.zero_mul, Nat.cast_zero, sub_zero, add_zero, whole, rowAt_nat, rowAt_nat,
        partsOf, partEq, slice_getElem? (by omega), first, Nat.zero_mul, Nat.zero_add]
    · -- Keys of other ranks are after the beginning of the halo, which is not before the row.
      have before : (previous rank).val = rank.val - 1 := by
        show (rank.val + size - 1) % size = _
        rw [show rank.val + size - 1 = rank.val - 1 + size by omega, Nat.add_mod_right, Nat.mod_eq_of_lt (by omega)]
      have start : (rank.val - 1) * part + part = rank.val * part := by
        rw [← Nat.succ_mul]
        congr 1
        omega
      obtain ⟨place, whole⟩ : ∃ place : ℕ, key = (rank.val * part + place : ℕ) - (halo : ℤ) :=
        ⟨(key - (rank.val * part : ℕ) + halo).toNat, by omega⟩
      have known : (partsOf size tensor (previous rank)).length = part := by
        rw [← partEq]
        exact length_part rfl divides (previous rank).2
      rw [if_neg first, if_neg first, max_eq_left (by omega), whole,
        show ((rank.val * part + place : ℕ) : ℤ) - halo - (rank.val * part : ℕ) + halo = (place : ℕ) by omega,
        show ((rank.val * part + place : ℕ) : ℤ) - halo = (rank.val * part + place - halo : ℕ) by omega,
        rowAt_nat, rowAt_nat]
      by_cases early : place < halo
      · rw [getElem?_append_left (by rw [length_drop, known]; omega), getElem?_drop, partsOf, partEq,
          slice_getElem? (by omega), before]
        congr 1
        omega
      · rw [getElem?_append_right (by rw [length_drop, known]; omega), length_drop, known, partsOf,
          partEq, slice_getElem? (by omega)]
        congr 1
        omega

theorem key_inside {key : ℤ} (inside : index < tensor.length)
    (mem : key ∈ keyIndices window.length index) : (rowAt tensor (max key 0)).isSome = true := by
  have span := mem_keyIndices mem
  rw [rowAt_isSome]
  omega

/-! ### Ranks and a whole row -/

/-- What a tensor of windows has for a query at a place of its window. -/
def entry (table : List (Fin rows → List Item)) (row : Fin rows) (query place : ℕ) : Option Item :=
  table[query]?.bind fun windows => (windows row)[place]?

/-- The context of a rank, whose part begins at a position, agrees with the context of the whole row. -/
structure Agrees (size : ℕ) (rank : Fin size) (batch : Batch rows) (window : Window) (context whole : ModelContext rows) :
    Prop where
  inputIds : context.inputIds = slice (batch.inputIds.length / size) whole.inputIds rank
  positions : context.positions = slice (batch.inputIds.length / size) whole.positions rank
  tokenMask : context.tokenMask = slice (batch.inputIds.length / size) whole.tokenMask rank
  sequenceIds : context.sequenceIds = slice (batch.inputIds.length / size) whole.sequenceIds rank
  attentionMask : context.attentionMask = slice (batch.inputIds.length / size) whole.attentionMask rank
  /-- What is addressed is there, and it is what the whole row addresses. -/
  keys : ∀ {Item : Type} (tensor : List Item), tensor.length = batch.inputIds.length →
    ∃ gathered alone, gatherAttention context.attentionHaloLength (partsOf size tensor) = some gathered
      ∧ gatherAttention whole.attentionHaloLength (partsOf 1 tensor) = some alone
      ∧ ∀ row, ∀ query < batch.inputIds.length / size, ∀ place < window.length, ∃ here there,
        entry context.attentionIndices row query place = some here
          ∧ entry whole.attentionIndices row (rank.val * (batch.inputIds.length / size) + query) place = some there
          ∧ rowAt (gathered rank) here = rowAt (alone 0) there ∧ (rowAt (gathered rank) here).isSome = true
  /-- Valid edges are within the window, causal, live and of one sequence. -/
  edges : ∀ row query place, entry context.attentionMask row query place = some true → ∃ index key : ℕ,
    index = rank.val * (batch.inputIds.length / size) + query
      ∧ entry whole.attentionIndices row index place = some (key : ℤ)
      ∧ key ≤ index ∧ index < key + window.length ∧ batch.live index row = true ∧ batch.live key row = true
      ∧ batch.sequence index row = batch.sequence key row

theorem slice_whole (tensor : List Item) (length : ℕ) (sized : tensor.length = length) :
    slice (length / 1) tensor 0 = tensor := by
  rw [Nat.div_one, slice, Nat.zero_mul, drop_zero, ← sized, take_length]

theorem length_positions : batch.positions.length = batch.inputIds.length := by
  unfold Batch.positions
  rw [length_map, length_range]

theorem haloOf_one (localLength : ℕ) (window : Window) : haloOf 1 localLength window = 0 := if_neg fun both => absurd both.1 (lt_irrefl 1)

variable {place : ℕ}

theorem whole_entry (row : Fin rows) (inside : index < batch.inputIds.length) :
    entry (contextOf 1 0 batch window).attentionIndices row index place
      = ((keyIndices window.length index)[place]?).map fun key => max key 0 := by
  unfold entry contextOf
  rw [Nat.div_one, getElem?_map, getElem?_range inside, haloOf_one]
  show ((keyIndices window.length (0 * _ + index)).map _)[place]? = _
  rw [getElem?_map, Nat.zero_mul, Nat.zero_add]
  rfl

theorem haloOf_le (size localLength : ℕ) (window : Window) : haloOf size localLength window ≤ localLength := by
  unfold haloOf
  split_ifs with fits
  · exact fits.2
  · exact Nat.zero_le _

theorem haloOf_enabled {localLength : ℕ} (some_ : haloOf size localLength window ≠ 0) : 1 < size := by
  unfold haloOf at some_
  split_ifs at some_ with fits
  · exact fits.1
  · exact absurd rfl some_

section

variable {rank : ℕ} (row : Fin rows) (inside : query < batch.inputIds.length / size)
include row inside

theorem context_entry : entry (contextOf size rank batch window).attentionIndices row query place
      = ((keyIndices window.length (rank * (batch.inputIds.length / size) + query))[place]?).map
        (addressOf (haloOf size (batch.inputIds.length / size) window) (rank * (batch.inputIds.length / size))
          (if rank = 0 then 0 else haloOf size (batch.inputIds.length / size) window)) := by
  unfold entry contextOf
  rw [getElem?_map, getElem?_range inside]
  exact getElem?_map

theorem mask_entry : entry (contextOf size rank batch window).attentionMask row query place
      = (maskAt batch window (rank * (batch.inputIds.length / size) + query) row)[place]? := by
  unfold entry contextOf
  rw [getElem?_map, getElem?_range inside]
  rfl

end

theorem length_keyIndices (index : ℕ) : (keyIndices window.length index).length = window.length := by
  unfold keyIndices
  rw [length_map, length_range]

/-- **Every rank attends to the tokens that the whole row attends to, and only to live tokens of the same sequence
in the window.** -/
theorem context_parallel (batch : Batch rows) (window : Window) (divides : size ∣ batch.inputIds.length) :
    ∃ whole, ModelContext.build 1 0 batch window = .ok whole ∧ ∀ rank : Fin size,
      ∃ context, ModelContext.build size rank batch window = .ok context
        ∧ Agrees size rank batch window context whole := by
  refine ⟨_, build_eq (one_dvd _) Nat.zero_lt_one, fun rank => ⟨_, build_eq divides rank.2, ?_⟩⟩
  have part : ∀ query < batch.inputIds.length / size,
      rank.val * (batch.inputIds.length / size) + query < batch.inputIds.length := by
    intro query inside
    have within := part_within divides rank.2
    rw [Nat.succ_mul] at within
    omega
  refine ⟨?_, ?_, ?_, ?_, ?_, ?_, ?_⟩
  · exact congrArg (slice _ · _) (slice_whole _ _ rfl).symm
  · exact congrArg (slice _ · _) (slice_whole _ _ length_positions).symm
  · exact congrArg (slice _ · _) (slice_whole _ _ batch.maskLength).symm
  · exact congrArg (slice _ · _) (slice_whole _ _ batch.sequenceLength).symm
  · have within : (rank.val + 1) * (batch.inputIds.length / size) ≤ batch.inputIds.length / 1 := by
      rw [Nat.div_one]
      exact part_within divides rank.2
    show _ = slice _ ((range (batch.inputIds.length / 1)).map _) rank.val
    rw [slice_map_range _ within]
    refine map_congr_left fun query _ => ?_
    rw [Nat.zero_mul, Nat.zero_add]
  · intro Item tensor sized
    have whole : size ∣ tensor.length := sized ▸ divides
    have shared : gatherAttention (contextOf size rank batch window).attentionHaloLength (partsOf size tensor)
        = some (gatheredOf (haloOf size (tensor.length / size) window) tensor) := by
      show gatherAttention (haloOf size (batch.inputIds.length / size) window) (partsOf size tensor) = _
      rw [← sized]
      exact gatherAttention_eq whole (haloOf_le _ _ _) haloOf_enabled
    have alone : gatherAttention (contextOf 1 0 batch window).attentionHaloLength (partsOf 1 tensor)
        = some (gatheredOf 0 tensor) := by
      exact gatherAttention_eq (one_dvd _) (Nat.zero_le _) fun absent => absurd rfl absent
    refine ⟨_, _, shared, alone, fun row query inside place within => ?_⟩
    obtain ⟨key, found⟩ : ∃ key,
        (keyIndices window.length (rank.val * (batch.inputIds.length / size) + query))[place]? = some key :=
      ⟨_, getElem?_eq_getElem (by rw [length_keyIndices]; exact within)⟩
    have member := mem_of_getElem? found
    have local_ : (rank.val * (batch.inputIds.length / size) + query) < tensor.length := by
      rw [sized]
      exact part query inside
    refine ⟨_, _, (context_entry row inside).trans (congrArg _ found),
      (whole_entry row (part query inside)).trans (congrArg _ found), ?_⟩
    rw [← sized] at member inside local_ ⊢
    have same := gathered_key whole inside member
    exact ⟨same, same ▸ key_inside local_ member⟩
  · intro row query place valid
    have inside : query < batch.inputIds.length / size := by
      by_contra late
      unfold entry contextOf at valid
      rw [getElem?_eq_none (by rw [length_map, length_range]; omega)] at valid
      cases valid
    rw [mask_entry row inside] at valid
    unfold maskAt at valid
    rw [getElem?_map] at valid
    obtain ⟨key, found, holds⟩ := Option.map_eq_some_iff.mp valid
    simp only [Bool.and_eq_true, decide_eq_true_eq, beq_iff_eq] at holds
    obtain ⟨⟨⟨positive, liveKey⟩, liveQuery⟩, same⟩ := holds
    have span := mem_keyIndices (mem_of_getElem? found)
    obtain ⟨place', rfl⟩ := Int.eq_ofNat_of_zero_le positive
    rw [max_eq_left positive] at liveKey same
    refine ⟨_, place', rfl, ?_, by omega, by omega, liveQuery, liveKey, same⟩
    rw [whole_entry row (part query inside), found]
    exact congrArg some (max_eq_left positive)

def straddling : Batch 1 where
  inputIds := [fun _ => 5, fun _ => 6, fun _ => 7, fun _ => 8]
  tokenMask := [fun _ => true, fun _ => true, fun _ => true, fun _ => false]
  sequenceIds := [fun _ => 0, fun _ => 1, fun _ => 1, fun _ => -1]
  maskLength := rfl
  sequenceLength := rfl

theorem straddling_parallel : ∃ whole, ModelContext.build 1 0 straddling ⟨2, by decide⟩ = .ok whole ∧
    ∀ rank : Fin 2, ∃ context, ModelContext.build 2 rank straddling ⟨2, by decide⟩ = .ok context
      ∧ Agrees 2 rank straddling ⟨2, by decide⟩ context whole :=
  context_parallel straddling ⟨2, by decide⟩ ⟨2, rfl⟩

end TinyDSV41.Model.ContextParallel
