/-
**Sparse KV gradients in a fixed order.**

An edge is a slot of a query that names a key. The native kernel gives each edge a value, for each block of
heads and each dimension, and stores the values of a chunk of queries at a time. The index arithmetic of the kernels,
in 32 bits, is taken as exact.

* `inverseAdjacency` — the edges in the order of the keys they name, and where the edges of a key begin.
* `reduceEdgeValues` — one program adds the values of the edges of one key that are in the chunk.
* `orderedBackward` — chunk by chunk, the gradients of both branches.
* `ordered_backward` — the gradient of a key is the sum over the edges that name it.
-/

import TinyDSV41.Lib.Segments
import TinyDSV41.Lib.Bisect
import TinyDSV41.Lib.Launch
import Mathlib

namespace TinyDSV41.Attention.OrderedKv

open List Lib
open Finset (sum_congr sum_filter)

variable {Value : Type}

/-- The indices of a branch with the keys they are about, and the first of its slots among all slots. -/
structure Branch where
  keyLength : ℕ
  slots : ℕ
  offset : ℕ
  indices : ℕ → ℕ → ℕ → ℤ
  mask : Option (ℕ → ℕ → ℕ → Bool)

/-- The saved tensors by their shapes and indices, and the values that the native kernel gives the edges, by
batch, query, slot, head block and dimension. -/
structure Saved (Value : Type) where
  batch : ℕ
  heads : ℕ
  length : ℕ
  dim : ℕ
  kvLength : ℕ
  windowSlots : ℕ
  windowIndices : ℕ → ℕ → ℕ → ℤ
  windowMask : ℕ → ℕ → ℕ → Bool
  compressedLength : ℕ
  selected : ℕ
  compressedIndices : ℕ → ℕ → ℕ → ℤ
  edgeValue : ℕ → ℕ → ℕ → ℕ → ℕ → Value

namespace Branch

variable (branch : Branch)

/-- The edge names a key there is, and is not masked. -/
def valid (batch query slot : ℕ) : Bool :=
  decide (0 ≤ branch.indices batch query slot) && decide (branch.indices batch query slot < branch.keyLength)
    && branch.mask.all fun mask => mask batch query slot

/-- `torch.where(valid, indices + batch_offset, owners)` -/
def encode (batches batch query slot : ℕ) : ℤ :=
  if branch.valid batch query slot = true then branch.indices batch query slot + (batch * branch.keyLength : ℕ)
  else (batches * branch.keyLength : ℕ)

/-- `_inverse_adjacency` -/
def inverseAdjacency (batches length : ℕ) : Option (List ℤ × List ℤ) := do
  let owners := batches * branch.keyLength
  let encoded := (range batches).flatMap fun batch => (range length).flatMap fun query =>
    (range branch.slots).map fun slot => branch.encode batches batch query slot
  let counts ← bincount (owners + 1) encoded
  some (argsort encoded, 0 :: cumsum (counts.take owners))

end Branch

/-- `tl.load` of a tensor of integers. -/
def load (tensor : List ℤ) (position : ℕ) : ℤ := tensor.getD position 0

/-- `triton.next_power_of_2` -/
def nextPowerOf2 (value : ℕ) : ℕ := if value = 0 then 0 else 2 ^ Nat.clog 2 value

namespace Saved

variable (saved : Saved Value)

/-- `(kv, wi, wm, dk, 0)` -/
def window : Branch :=
  { keyLength := saved.kvLength, slots := saved.windowSlots, offset := 0, indices := saved.windowIndices,
    mask := some saved.windowMask }

/-- `(compressed, ci, None, dc, window)` -/
def compressed : Branch :=
  { keyLength := saved.compressedLength, slots := saved.selected, offset := saved.windowSlots,
    indices := saved.compressedIndices, mask := none }

/-- `triton.cdiv(heads, 16)` -/
def headBlocks : ℕ := sliceCount 16 saved.heads

/-- Each head belongs to one block of sixteen. -/
theorem head_covered {head : ℕ} (inside : head < saved.heads) :
    ∃! block, block < saved.headBlocks ∧ 16 * block ≤ head ∧ head < 16 * (block + 1) := by
  have covered : head / 16 < saved.headBlocks := (lt_sliceCount_iff (by decide)).mpr (by omega)
  refine ⟨head / 16, ⟨covered, by omega, by omega⟩, fun block within => ?_⟩
  omega

def combinedSlots : ℕ := saved.windowSlots + saved.selected

/-- `min(length, chunk_queries)` -/
def capacity : ℕ := min saved.length 128

def edgeOffset (batch localQuery slot headBlock dim : ℕ) : ℕ :=
  (((batch * saved.capacity + localQuery) * saved.combinedSlots + slot) * saved.headBlocks + headBlock) * saved.dim + dim

/-- The native kernel with `ORDERED_KV`: a program stores the values of the valid edges of one query of the chunk
and one block of heads. -/
def storeEdges (start size : ℕ) (program : ℕ × ℕ) : List (ℕ × Value) :=
  let batch := program.1 / size
  let localQuery := program.1 - batch * size
  [saved.window, saved.compressed].flatMap fun branch => (range branch.slots).flatMap fun slot =>
    if branch.valid batch (start + localQuery) slot = true then
      (range saved.dim).map fun dim =>
        (saved.edgeOffset batch localQuery (branch.offset + slot) program.2 dim,
          saved.edgeValue batch (start + localQuery) (branch.offset + slot) program.2 dim)
    else []

variable (branch : Branch)

/-- What the loop of `_reduce_edge_values` adds up: groups of eight edges of a key that are in the chunk, each lane
of a group with an edge and a block of heads. -/
def edgeSum [AddCommMonoid Value] (branch : Branch) (order offsets : List ℤ) (start size : ℕ)
    (edgeValues : Memory Value) (owner dim : ℕ) : Value :=
  let batch := owner / branch.keyLength
  let first := (load offsets owner).toNat
  let last := (load offsets (owner + 1)).toNat
  let lowerEdge := (batch * saved.length + start) * branch.slots
  let upperEdge := (batch * saved.length + start + size) * branch.slots
  let begin_ := bisect (fun place => load order place < (lowerEdge : ℕ)) first last
  let end_ := bisect (fun place => load order place < (upperEdge : ℕ)) begin_ last
  ∑ group ∈ Finset.range (sliceCount 8 (end_ - begin_)),
    ∑ lane ∈ Finset.range (nextPowerOf2 (8 * saved.headBlocks)),
      if lane / saved.headBlocks < 8 ∧ begin_ + group * 8 + lane / saved.headBlocks < end_ then
        let edge := load order (begin_ + group * 8 + lane / saved.headBlocks)
        let localQuery := edge / branch.slots - (batch * saved.length : ℕ) - start
        let slot := edge % branch.slots + branch.offset
        edgeValues (saved.edgeOffset batch localQuery.toNat slot.toNat (lane % saved.headBlocks) dim)
      else 0

/-- `_reduce_edge_values`: a program adds the values of the edges of one key to a tile of its gradient. -/
def reduceEdgeValues [AddCommMonoid Value] (branch : Branch) (order offsets : List ℤ) (start size : ℕ)
    (edgeValues : Memory Value) (program : ℕ × ℕ) (grad : Memory Value) : List (ℕ × Value) :=
  (range 128).filterMap fun dimLane =>
    let dim := program.2 * 128 + dimLane
    if dim < saved.dim then
      some (program.1 * saved.dim + dim, grad (program.1 * saved.dim + dim)
        + saved.edgeSum branch order offsets start size edgeValues program.1 dim)
    else none

def edgeGrid (size : ℕ) : List (ℕ × ℕ) := range (saved.batch * size) ×ˢ range saved.headBlocks

def reduceGrid (branch : Branch) : List (ℕ × ℕ) :=
  range (saved.batch * branch.keyLength) ×ˢ range (sliceCount 128 saved.dim)

def chunkSize (start : ℕ) : ℕ := min saved.capacity (saved.length - start)

/-- The orders in which the programs of each launch run. -/
structure Schedules where
  edges : ∀ start, Schedule (saved.edgeGrid (saved.chunkSize start))
  window : ℕ → Schedule (saved.reduceGrid saved.window)
  compressed : ℕ → Schedule (saved.reduceGrid saved.compressed)

def adjacency (branch : Branch) : Option (Option (List ℤ × List ℤ)) :=
  if saved.batch * branch.keyLength * saved.dim ≠ 0 ∧ saved.batch * saved.length * branch.slots ≠ 0 then
    (branch.inverseAdjacency saved.batch saved.length).map some
  else some none

variable [AddCommMonoid Value]

def reduceBranch (branch : Branch) (adjacency : Option (List ℤ × List ℤ)) (order : List (ℕ × ℕ)) (start : ℕ)
    (edgeValues grad : Memory Value) : Memory Value :=
  match adjacency with
  | none => grad
  | some (edgeOrder, offsets) =>
    launch (saved.reduceEdgeValues branch edgeOrder offsets start (saved.chunkSize start) edgeValues) order grad

def chunk (schedules : saved.Schedules) (window compressed : Option (List ℤ × List ℤ))
    (state : Memory Value × Memory Value × Memory Value) (start : ℕ) : Memory Value × Memory Value × Memory Value :=
  let edgeValues := launch (fun program _ => saved.storeEdges start (saved.chunkSize start) program)
    (schedules.edges start).order state.1
  (edgeValues,
    saved.reduceBranch saved.window window (schedules.window start).order start edgeValues state.2.1,
    saved.reduceBranch saved.compressed compressed (schedules.compressed start).order start edgeValues state.2.2)

/-- `ordered_backward`: the gradients of the keys of both branches. The edge values begin with anything. -/
def orderedBackward (schedules : saved.Schedules) (empty : Memory Value) : Option (Memory Value × Memory Value) := do
  let window ← saved.adjacency saved.window
  let compressed ← saved.adjacency saved.compressed
  let starts := (range (sliceCount 128 saved.length)).map (· * 128)
  let final := starts.foldl (saved.chunk schedules window compressed) (empty, fun _ => 0, fun _ => 0)
  some final.2

end Saved

/-! ### The edges of a key -/

variable {owner : ℕ}

namespace Branch

variable {branch : Branch} {batches length batch query slot key : ℕ}

/-- What an edge is encoded as, by its position. -/
def edgeKey (branch : Branch) (batches length edge : ℕ) : ℤ :=
  branch.encode batches (edge / branch.slots / length) (edge / branch.slots % length) (edge % branch.slots)

def edgesOf (branch : Branch) (batches length owner : ℕ) : List ℕ :=
  (range (batches * length * branch.slots)).filter fun edge => branch.edgeKey batches length edge = (owner : ℤ)

theorem encoded_eq : ((range batches).flatMap fun batch => (range length).flatMap fun query =>
      (range branch.slots).map fun slot => branch.encode batches batch query slot)
    = (range (batches * length * branch.slots)).map (branch.edgeKey batches length) := by
  unfold edgeKey
  rw [← range_grid (fun row => branch.encode batches (row / length) (row % length)), range_mul]
  refine flatMap_congr fun batch _ => flatMap_congr fun query mem => ?_
  have small := mem_range.mp mem
  rw [grid_div small, grid_mod small]

theorem valid_range (valid : branch.valid batch query slot = true) :
    0 ≤ branch.indices batch query slot ∧ branch.indices batch query slot < branch.keyLength := by
  unfold Branch.valid at valid
  simp only [Bool.and_eq_true, decide_eq_true_eq] at valid
  exact valid.1

theorem encode_iff (below : batch < batches) (here : key < branch.keyLength) (edgeBatch : ℕ) :
    branch.encode batches edgeBatch query slot = ((batch * branch.keyLength + key : ℕ) : ℤ) ↔
      branch.valid edgeBatch query slot = true ∧ edgeBatch = batch ∧ branch.indices edgeBatch query slot = key := by
  have owner : batch * branch.keyLength + key < batches * branch.keyLength :=
    calc batch * branch.keyLength + key < (batch + 1) * branch.keyLength := by rw [Nat.succ_mul]; omega
      _ ≤ batches * branch.keyLength := Nat.mul_le_mul_right _ below
  unfold encode
  by_cases valid : branch.valid edgeBatch query slot = true
  · obtain ⟨low, high⟩ := valid_range valid
    obtain ⟨index, same⟩ := Int.eq_ofNat_of_zero_le low
    rw [if_pos valid, same]
    rw [same] at high
    constructor
    · intro equal
      have both := grid_inj (Int.ofNat_lt.mp high) here (by omega : edgeBatch * branch.keyLength + index = batch * branch.keyLength + key)
      exact ⟨valid, both.1, congrArg Int.ofNat both.2⟩
    · rintro ⟨-, rfl, equal⟩
      omega
  · rw [if_neg valid]
    constructor
    · intro equal
      omega
    · exact fun both => absurd both.1 valid

theorem encode_range (below : batch < batches) : 0 ≤ branch.encode batches batch query slot
    ∧ branch.encode batches batch query slot < (batches * branch.keyLength + 1 : ℕ) := by
  unfold encode
  by_cases valid : branch.valid batch query slot = true
  · obtain ⟨low, high⟩ := valid_range valid
    have whole : (batch + 1) * branch.keyLength ≤ batches * branch.keyLength := Nat.mul_le_mul_right _ below
    rw [Nat.succ_mul] at whole
    omega
  · rw [if_neg valid]
    omega

theorem edgeKey_range {edge : ℕ} (inside : edge < batches * length * branch.slots) :
    0 ≤ branch.edgeKey batches length edge
      ∧ branch.edgeKey batches length edge < (batches * branch.keyLength + 1 : ℕ) := by
  refine encode_range (Nat.div_lt_of_lt_mul (Nat.div_lt_of_lt_mul ?_))
  calc edge < batches * length * branch.slots := inside
    _ = branch.slots * (length * batches) := by ring

/-- **The edges in the order of their keys, and where the edges of each key begin.** -/
theorem inverseAdjacency_eq (branch : Branch) (batches length : ℕ) : branch.inverseAdjacency batches length
    = some (((range (batches * branch.keyLength + 1)).flatMap (branch.edgesOf batches length)).map Int.ofNat,
        0 :: cumsum ((range (batches * branch.keyLength)).map fun owner =>
          (branch.edgesOf batches length owner).length)) := by
  have ranged : ∀ value ∈ (range (batches * length * branch.slots)).map (branch.edgeKey batches length),
      0 ≤ value ∧ value < (batches * branch.keyLength + 1 : ℕ) :=
    forall_mem_map.mpr fun edge mem => edgeKey_range (mem_range.mp mem)
  have increasing : ((range (batches * branch.keyLength + 1)).map fun (owner : ℕ) => (owner : ℤ)).Pairwise (· < ·) :=
    pairwise_map.mpr (pairwise_lt_range.imp Int.ofNat_lt.mpr)
  have owned : ∀ edge ∈ range (batches * length * branch.slots), branch.edgeKey batches length edge
      ∈ (range (batches * branch.keyLength + 1)).map fun (owner : ℕ) => (owner : ℤ) := by
    intro edge mem
    obtain ⟨low, high⟩ := edgeKey_range (mem_range.mp mem)
    exact mem_map.mpr ⟨_, mem_range.mpr (by omega), Int.toNat_of_nonneg low⟩
  have counts : (range (batches * branch.keyLength + 1)).map (fun (owner : ℕ) =>
      ((range (batches * length * branch.slots)).map (branch.edgeKey batches length)).count (owner : ℤ))
        = (range (batches * branch.keyLength + 1)).map fun owner => (branch.edgesOf batches length owner).length := by
    refine map_congr_left fun owner _ => ?_
    rw [count_eq_countP, countP_map, countP_eq_length_filter]
    exact congrArg List.length (List.filter_congr fun edge _ => rfl)
  unfold inverseAdjacency
  rw [encoded_eq]
  refine Option.bind_eq_some_iff.mpr ⟨_, bincount_below ranged, ?_⟩
  rw [counts, ← map_take, take_range, Nat.min_eq_left (Nat.le_succ _), argsort_range,
    sortOn_eq_flatMap increasing owned, flatMap_map]
  rfl

def firstEdge (branch : Branch) (batches length owner : ℕ) : ℕ :=
  ((range owner).flatMap (branch.edgesOf batches length)).length

theorem load_offsets (within : owner ≤ batches * branch.keyLength) :
    load (0 :: cumsum ((range (batches * branch.keyLength)).map fun owner =>
      (branch.edgesOf batches length owner).length)) owner = branch.firstEdge batches length owner := by
  unfold load cumsum firstEdge
  rw [cumsumFrom_getD _ 0 (by rw [length_map, length_range]; exact within), zero_add, ← map_take,
    take_range, Nat.min_eq_left within, length_flatMap]

theorem firstEdge_succ (owner : ℕ) : branch.firstEdge batches length (owner + 1)
    = branch.firstEdge batches length owner + (branch.edgesOf batches length owner).length := by
  unfold firstEdge
  rw [range_succ, flatMap_append, flatMap_singleton, length_append]

theorem edges_split (length : ℕ) (inside : owner < batches * branch.keyLength) :
    ∃ front rest : List ℕ, front.length = branch.firstEdge batches length owner ∧
      (range (batches * branch.keyLength + 1)).flatMap (branch.edgesOf batches length)
        = front ++ (branch.edgesOf batches length owner ++ rest) := by
  obtain ⟨more, same⟩ := Nat.exists_eq_add_of_lt inside
  have numbers : range (batches * branch.keyLength + 1)
      = range owner ++ (owner :: (range (more + 1)).map fun next => owner + (next + 1)) := by
    rw [same, show owner + more + 1 + 1 = owner + (1 + (more + 1)) by omega, range_add, Nat.add_comm 1,
      range_succ_eq_map, map_cons, map_map]
    rfl
  rw [numbers, flatMap_append, flatMap_cons]
  exact ⟨_, _, rfl, rfl⟩

theorem edgesOf_increasing (owner : ℕ) : (branch.edgesOf batches length owner).Pairwise (· < ·) :=
  pairwise_lt_range.filter _

def edgesWithin (branch : Branch) (batches length owner lower upper : ℕ) : List ℕ :=
  ((branch.edgesOf batches length owner).filter (lower ≤ ·)).filter (· < upper)

def edgeOrder (branch : Branch) (batches length : ℕ) : List ℤ :=
  ((range (batches * branch.keyLength + 1)).flatMap (branch.edgesOf batches length)).map Int.ofNat

theorem load_edgeOrder (bound place : ℕ) : decide (load (branch.edgeOrder batches length) place < (bound : ℤ))
    = decide (((range (batches * branch.keyLength + 1)).flatMap (branch.edgesOf batches length)).getD place 0 < bound) := by
  refine decide_eq_decide.mpr ?_
  unfold load edgeOrder
  rw [show (0 : ℤ) = Int.ofNat 0 from rfl, getD_map]
  exact Int.ofNat_lt

/-- **Two searches find the edges of a key that are in a span.** -/
theorem bisect_edges (length : ℕ) (inside : owner < batches * branch.keyLength) (lower upper : ℕ) :
    ∃ before after : List ℕ,
      (range (batches * branch.keyLength + 1)).flatMap (branch.edgesOf batches length)
        = before ++ (branch.edgesWithin batches length owner lower upper ++ after) ∧
      bisect (fun place => load (branch.edgeOrder batches length) place < (lower : ℕ))
        (branch.firstEdge batches length owner) (branch.firstEdge batches length (owner + 1)) = before.length ∧
      bisect (fun place => load (branch.edgeOrder batches length) place < (upper : ℕ)) before.length
        (branch.firstEdge batches length (owner + 1))
          = before.length + (branch.edgesWithin batches length owner lower upper).length := by
  obtain ⟨front, rest, first, split⟩ := edges_split length inside
  have found := bisect_span split (edgesOf_increasing owner) lower upper
  simp only [load_edgeOrder, firstEdge_succ, ← first]
  exact found

end Branch

/-! ### The native kernel -/

theorem grid_nodup (outer inner : ℕ) : (range outer ×ˢ range inner).Nodup :=
  nodup_range.product nodup_range

theorem mem_grid {outer inner row column : ℕ} :
    (row, column) ∈ range outer ×ˢ range inner ↔ row < outer ∧ column < inner := by
  show (row, column) ∈ product _ _ ↔ _
  rw [pair_mem_product, mem_range, mem_range]

namespace Saved

variable {saved : Saved Value} {branch : Branch} {batch query slot block start size dim : ℕ}

/-- The memory holds the values of the edges of a chunk. -/
def Stored (saved : Saved Value) (branch : Branch) (start size : ℕ) (edgeValues : Memory Value) : Prop :=
  ∀ batch < saved.batch, ∀ query < size, ∀ slot < branch.slots, ∀ headBlock < saved.headBlocks, ∀ dim < saved.dim,
    branch.valid batch (start + query) slot = true →
      edgeValues (saved.edgeOffset batch query (branch.offset + slot) headBlock dim)
        = saved.edgeValue batch (start + query) (branch.offset + slot) headBlock dim

def IsBranch (saved : Saved Value) (branch : Branch) : Prop := branch = saved.window ∨ branch = saved.compressed

theorem slot_below (known : saved.IsBranch branch) (small : slot < branch.slots) :
    branch.offset + slot < saved.combinedSlots := by
  unfold combinedSlots
  rcases known with rfl | rfl
  · show 0 + slot < _
    have : slot < saved.windowSlots := small
    omega
  · show saved.windowSlots + slot < _
    have : slot < saved.selected := small
    omega

theorem edgeOffset_inj {other next slot' block block' dim' : ℕ} (one : query < saved.capacity) (two : next < saved.capacity)
    (three : slot < saved.combinedSlots) (four : slot' < saved.combinedSlots) (five : block < saved.headBlocks)
    (six : block' < saved.headBlocks) (seven : dim < saved.dim) (eight : dim' < saved.dim)
    (same : saved.edgeOffset batch query slot block dim = saved.edgeOffset other next slot' block' dim') :
    batch = other ∧ query = next ∧ slot = slot' ∧ block = block' ∧ dim = dim' := by
  obtain ⟨rest, dims⟩ := grid_inj seven eight same
  obtain ⟨rest, blocks⟩ := grid_inj five six rest
  obtain ⟨rest, slots⟩ := grid_inj three four rest
  obtain ⟨batches, queries⟩ := grid_inj one two rest
  exact ⟨batches, queries, slots, blocks, dims⟩

theorem mem_storeEdges {program : ℕ × ℕ} {write : ℕ × Value} : write ∈ saved.storeEdges start size program ↔
    ∃ branch, saved.IsBranch branch ∧ ∃ slot < branch.slots,
      branch.valid (program.1 / size) (start + (program.1 - program.1 / size * size)) slot = true ∧ ∃ dim < saved.dim,
        write = (saved.edgeOffset (program.1 / size) (program.1 - program.1 / size * size) (branch.offset + slot) program.2 dim,
          saved.edgeValue (program.1 / size) (start + (program.1 - program.1 / size * size)) (branch.offset + slot) program.2 dim) := by
  unfold storeEdges IsBranch
  simp only [mem_flatMap, mem_cons, not_mem_nil, or_false, mem_range]
  constructor
  · rintro ⟨branch, known, slot, small, there⟩
    by_cases valid : branch.valid (program.1 / size) (start + (program.1 - program.1 / size * size)) slot = true
    · rw [if_pos valid] at there
      obtain ⟨dim, inside, rfl⟩ := mem_map.mp there
      exact ⟨branch, known, slot, small, valid, dim, mem_range.mp inside, rfl⟩
    · rw [if_neg valid] at there
      cases there
  · rintro ⟨branch, known, slot, small, valid, dim, inside, rfl⟩
    refine ⟨branch, known, slot, small, ?_⟩
    rw [if_pos valid]
    exact mem_map.mpr ⟨dim, mem_range.mpr inside, rfl⟩

/-- **The native kernel stores the values of the edges of the chunk, whatever the order of its programs.** -/
theorem stored_edges {empty : Memory Value} (known : saved.IsBranch branch) (fits : size ≤ saved.capacity)
    (schedule : Schedule (saved.edgeGrid size)) : saved.Stored branch start size
      (launch (fun program _ => saved.storeEdges start size program) schedule.order empty) := by
  intro batch below query inChunk slot small headBlock inBlocks dim inside valid
  have listed : (batch * size + query, headBlock) ∈ schedule.order := by
    rw [schedule.complete.mem_iff, edgeGrid, mem_grid]
    refine ⟨?_, inBlocks⟩
    calc batch * size + query < (batch + 1) * size := by rw [Nat.succ_mul]; omega
      _ ≤ saved.batch * size := Nat.mul_le_mul_right _ below
  have rest : batch * size + query - batch * size = query := Nat.add_sub_cancel_left _ _
  -- A write to the cell is one of the same program, by its offset.
  have unique : ∀ program ∈ schedule.order, ∀ write ∈ saved.storeEdges start size program,
      write.1 = saved.edgeOffset batch query (branch.offset + slot) headBlock dim →
        program = (batch * size + query, headBlock)
          ∧ write.2 = saved.edgeValue batch (start + query) (branch.offset + slot) headBlock dim := by
    intro program mem write there same
    rw [schedule.complete.mem_iff, edgeGrid] at mem
    obtain ⟨rows, blocks⟩ := mem_grid.mp (show (program.1, program.2) ∈ _ from mem)
    obtain ⟨other, known', slot', small', -, dim', inside', rfl⟩ := mem_storeEdges.mp there
    have remainder : program.1 - program.1 / size * size < size := by
      have := Nat.div_add_mod' program.1 size
      have := Nat.mod_lt program.1 (Nat.zero_lt_of_lt inChunk)
      omega
    obtain ⟨batches, queries, slots, blocks', dims⟩ := edgeOffset_inj (remainder.trans_le fits) (inChunk.trans_le fits)
      (slot_below known' small') (slot_below known small) blocks inBlocks inside' inside same
    refine ⟨Prod.ext ?_ blocks', ?_⟩
    · have := Nat.div_add_mod' program.1 size
      rw [batches] at queries this
      omega
    · rw [queries, batches, slots, blocks', dims]
  refine launch_cell (schedule.complete.nodup_iff.mpr (grid_nodup _ _)) listed (fun program mem differs memory written => ?_)
    fun memory _ => ?_
  · obtain ⟨write, there, same⟩ := mem_map.mp written
    exact differs (unique program mem write there same).1
  · refine store_cell ?_ fun write there same => (unique _ listed write there same).2
    refine mem_map.mpr ⟨(saved.edgeOffset batch query (branch.offset + slot) headBlock dim,
      saved.edgeValue batch (start + query) (branch.offset + slot) headBlock dim), ?_, rfl⟩
    refine mem_storeEdges.mpr ⟨branch, known, slot, small, ?_⟩
    rw [grid_div inChunk, rest]
    exact ⟨valid, dim, inside, rfl⟩

end Saved

/-! ### One program -/

variable [AddCommMonoid Value]

theorem le_nextPowerOf2 (value : ℕ) : value ≤ nextPowerOf2 value := by
  unfold nextPowerOf2
  by_cases zero : value = 0
  · rw [if_pos zero, zero]
  · rw [if_neg zero]
    exact Nat.le_pow_clog (by decide) value

variable {order : List ℤ}

/-- The lanes of all groups add each edge once for every block of heads. -/
theorem sum_edges {before within after : List ℕ} (headBlocks : ℕ) (value : ℤ → ℕ → Value)
    (split : order = (before ++ (within ++ after)).map Int.ofNat) :
    ∑ group ∈ Finset.range (sliceCount 8 (before.length + within.length - before.length)),
        ∑ lane ∈ Finset.range (nextPowerOf2 (8 * headBlocks)),
          (if lane / headBlocks < 8 ∧ before.length + group * 8 + lane / headBlocks < before.length + within.length then
            value (load order (before.length + group * 8 + lane / headBlocks)) (lane % headBlocks)
          else 0)
      = (within.map fun (edge : ℕ) => ∑ headBlock ∈ Finset.range headBlocks, value (edge : ℤ) headBlock).sum := by
  have idle : headBlocks = 0 → nextPowerOf2 (8 * headBlocks) = 0 := by
    rintro rfl
    rfl
  have found : ∀ place, place < within.length → load order (before.length + place) = (within.getD place 0 : ℕ) := by
    intro place inside
    unfold load
    rw [split, show (0 : ℤ) = Int.ofNat 0 from rfl, getD_map, getD_append_right _ _ _ _ (Nat.le_add_right _ _),
      Nat.add_sub_cancel_left, getD_append _ _ _ _ inside]
    rfl
  rw [Nat.add_sub_cancel_left, ← sum_getD within 0, ← sum_groups (show 0 < 8 by decide) within.length]
  refine sum_congr rfl fun group _ => ?_
  simp only [ite_and]
  rw [sum_lanes (le_nextPowerOf2 _) idle fun item headBlock =>
    if before.length + group * 8 + item < before.length + within.length then
      value (load order (before.length + group * 8 + item)) headBlock
    else 0]
  refine sum_congr rfl fun item _ => ?_
  by_cases inside : group * 8 + item < within.length
  · rw [if_pos inside]
    refine sum_congr rfl fun headBlock _ => ?_
    rw [if_pos (by omega), Nat.add_assoc, found _ inside]
  · rw [if_neg inside]
    exact Finset.sum_eq_zero fun headBlock _ => if_neg (by omega)

namespace Saved

variable {saved : Saved Value} {branch : Branch} {batch query slot key start size dim : ℕ}

def keySum (saved : Saved Value) (branch : Branch) (batch key dim query : ℕ) : Value :=
  ∑ slot ∈ Finset.range branch.slots,
    if branch.valid batch query slot = true ∧ branch.indices batch query slot = key then
      ∑ headBlock ∈ Finset.range saved.headBlocks, saved.edgeValue batch query (branch.offset + slot) headBlock dim
    else 0

/-- The edges of a key in a chunk, by query and slot. -/
theorem sum_edgesWithin (below : batch < saved.batch) (here : key < branch.keyLength)
    (within : start + size ≤ saved.length) (value : ℕ → Value) :
    ((branch.edgesWithin saved.batch saved.length (batch * branch.keyLength + key)
        ((batch * saved.length + start) * branch.slots) ((batch * saved.length + start + size) * branch.slots)).map value).sum
      = ∑ query ∈ Finset.range size, ∑ slot ∈ Finset.range branch.slots,
          if branch.valid batch (start + query) slot = true ∧ branch.indices batch (start + query) slot = key then
            value ((batch * saved.length + start + query) * branch.slots + slot)
          else 0 := by
  have total : (batch * saved.length + start + size) * branch.slots ≤ saved.batch * saved.length * branch.slots := by
    refine Nat.mul_le_mul_right _ ?_
    calc batch * saved.length + start + size ≤ (batch + 1) * saved.length := by rw [Nat.succ_mul]; omega
      _ ≤ saved.batch * saved.length := Nat.mul_le_mul_right _ below
  have edges : branch.edgesWithin saved.batch saved.length (batch * branch.keyLength + key)
      ((batch * saved.length + start) * branch.slots) ((batch * saved.length + start + size) * branch.slots)
        = (range (saved.batch * saved.length * branch.slots)).filter fun edge =>
          (batch * saved.length + start) * branch.slots ≤ edge ∧ edge < (batch * saved.length + start + size) * branch.slots
            ∧ branch.edgeKey saved.batch saved.length edge = ((batch * branch.keyLength + key : ℕ) : ℤ) := by
    unfold Branch.edgesWithin Branch.edgesOf
    rw [filter_filter, filter_filter]
    refine filter_congr fun edge _ => ?_
    simp only [Bool.decide_and]
    rw [Bool.and_comm (decide (edge < _)), Bool.and_assoc]
  have span : (Finset.range (saved.batch * saved.length * branch.slots)).filter (fun edge =>
      (batch * saved.length + start) * branch.slots ≤ edge ∧ edge < (batch * saved.length + start + size) * branch.slots
        ∧ branch.edgeKey saved.batch saved.length edge = ((batch * branch.keyLength + key : ℕ) : ℤ))
      = (Finset.Ico ((batch * saved.length + start) * branch.slots) ((batch * saved.length + start + size) * branch.slots)).filter
        fun edge => branch.edgeKey saved.batch saved.length edge = ((batch * branch.keyLength + key : ℕ) : ℤ) := by
    ext edge
    simp only [Finset.mem_filter, Finset.mem_range, Finset.mem_Ico]
    constructor
    · exact fun ⟨_, low, high, named⟩ => ⟨⟨low, high⟩, named⟩
    · exact fun ⟨⟨low, high⟩, named⟩ => ⟨high.trans_le total, low, high, named⟩
  rw [edges, sum_filter_range, ← sum_filter, span, sum_filter, Finset.sum_Ico_eq_sum_range,
    ← Nat.sub_mul, Nat.add_sub_cancel_left, sum_range_mul]
  refine sum_congr rfl fun query inside => sum_congr rfl fun slot inSlots => ?_
  have small := Finset.mem_range.mp inSlots
  have early : start + query < saved.length := by
    have := Finset.mem_range.mp inside
    omega
  have place : (batch * saved.length + start) * branch.slots + (query * branch.slots + slot)
      = (batch * saved.length + (start + query)) * branch.slots + slot := by ring
  have named : branch.edgeKey saved.batch saved.length ((batch * saved.length + (start + query)) * branch.slots + slot)
      = branch.encode saved.batch batch (start + query) slot := by
    unfold Branch.edgeKey
    rw [grid_div small, grid_mod small, grid_div early, grid_mod early]
  rw [place, named, ← Nat.add_assoc]
  refine if_congr ((Branch.encode_iff below here batch).trans ?_) rfl rfl
  exact ⟨fun ⟨valid, _, index⟩ => ⟨valid, index⟩, fun ⟨valid, index⟩ => ⟨valid, rfl, index⟩⟩

def offsetsOf (branch : Branch) (batches length : ℕ) : List ℤ :=
  0 :: cumsum ((range (batches * branch.keyLength)).map fun owner => (branch.edgesOf batches length owner).length)

variable {edgeValues : Memory Value}

/-- **The loop of a program adds the values of the edges of its key in the chunk.** -/
theorem edgeSum_eq (below : batch < saved.batch) (here : key < branch.keyLength)
    (inside : dim < saved.dim) (within : start + size ≤ saved.length)
    (stored : saved.Stored branch start size edgeValues) :
    saved.edgeSum branch (branch.edgeOrder saved.batch saved.length) (offsetsOf branch saved.batch saved.length) start size
        edgeValues (batch * branch.keyLength + key) dim
      = ∑ query ∈ Finset.range size, saved.keySum branch batch key dim (start + query) := by
  have owner : batch * branch.keyLength + key < saved.batch * branch.keyLength :=
    calc batch * branch.keyLength + key < (batch + 1) * branch.keyLength := by rw [Nat.succ_mul]; omega
      _ ≤ saved.batch * branch.keyLength := Nat.mul_le_mul_right _ below
  obtain ⟨before, after, split, begins, ends⟩ := Branch.bisect_edges saved.length owner
    ((batch * saved.length + start) * branch.slots) ((batch * saved.length + start + size) * branch.slots)
  have listed : branch.edgeOrder saved.batch saved.length = (before ++ (_ ++ after)).map Int.ofNat :=
    congrArg (map Int.ofNat) split
  unfold edgeSum offsetsOf
  dsimp only
  rw [grid_div here, Branch.load_offsets owner.le, Branch.load_offsets owner, Int.toNat_natCast, Int.toNat_natCast,
    begins, ends]
  rw [sum_edges saved.headBlocks (fun edge headBlock => edgeValues (saved.edgeOffset batch
    (edge / branch.slots - (batch * saved.length : ℕ) - start).toNat (edge % branch.slots + branch.offset).toNat
      headBlock dim)) listed]
  rw [sum_edgesWithin below here within]
  refine sum_congr rfl fun query inChunk => sum_congr rfl fun slot inSlots => ?_
  have small := Finset.mem_range.mp inSlots
  by_cases named : branch.valid batch (start + query) slot = true ∧ branch.indices batch (start + query) slot = key
  · rw [if_pos named, if_pos named]
    have queryOf : (((batch * saved.length + start + query) * branch.slots + slot : ℕ) : ℤ) / branch.slots
        - (batch * saved.length : ℕ) - start = query := by
      rw [← Int.natCast_div, grid_div small]
      omega
    have slotOf : (((batch * saved.length + start + query) * branch.slots + slot : ℕ) : ℤ) % branch.slots
        + branch.offset = (branch.offset + slot : ℕ) := by
      rw [← Int.natCast_mod, grid_mod small]
      omega
    refine sum_congr rfl fun headBlock inBlocks => ?_
    rw [queryOf, slotOf, Int.toNat_natCast, Int.toNat_natCast]
    exact stored batch below query (Finset.mem_range.mp inChunk) slot small headBlock (Finset.mem_range.mp inBlocks) dim
      inside named.1
  · rw [if_neg named, if_neg named]

/-! ### Launches -/

variable {grad : Memory Value}

theorem mem_reduce {offsets : List ℤ} {program : ℕ × ℕ} {write : ℕ × Value}
    (mem : write ∈ saved.reduceEdgeValues branch order offsets start size edgeValues program grad) :
    ∃ lane < 128, program.2 * 128 + lane < saved.dim
      ∧ write = (program.1 * saved.dim + (program.2 * 128 + lane), grad (program.1 * saved.dim + (program.2 * 128 + lane))
        + saved.edgeSum branch order offsets start size edgeValues program.1 (program.2 * 128 + lane)) := by
  obtain ⟨lane, inLanes, made⟩ := mem_filterMap.mp mem
  by_cases inside : program.2 * 128 + lane < saved.dim
  · rw [if_pos inside] at made
    exact ⟨lane, mem_range.mp inLanes, inside, (Option.some.inj made).symm⟩
  · rw [if_neg inside] at made
    cases made

/-- **A launch adds to each gradient what its program adds up.** -/
theorem reduce_cell {offsets : List ℤ} (schedule : Schedule (saved.reduceGrid branch))
    (owned : owner < saved.batch * branch.keyLength) (inside : dim < saved.dim) :
    launch (saved.reduceEdgeValues branch order offsets start size edgeValues) schedule.order grad (owner * saved.dim + dim)
      = grad (owner * saved.dim + dim) + saved.edgeSum branch order offsets start size edgeValues owner dim := by
  have tile : dim / 128 * 128 + dim % 128 = dim := Nat.div_add_mod' dim 128
  have listed : (owner, dim / 128) ∈ schedule.order := by
    rw [schedule.complete.mem_iff, reduceGrid, mem_grid, lt_sliceCount_iff (by decide)]
    exact ⟨owned, by omega⟩
  refine launch_cell (schedule.complete.nodup_iff.mpr (grid_nodup _ _)) listed (fun program _ differs memory mem => ?_)
    fun memory kept => ?_
  · obtain ⟨write, there, same⟩ := mem_map.mp mem
    obtain ⟨lane, below, small, rfl⟩ := mem_reduce there
    obtain ⟨owners, dims⟩ := grid_inj small inside same
    exact differs (Prod.ext owners (by show program.2 = dim / 128; omega))
  · refine store_cell ?_ fun write there same => ?_
    · refine mem_map.mpr ⟨(owner * saved.dim + dim, memory (owner * saved.dim + dim)
        + saved.edgeSum branch order offsets start size edgeValues owner dim), ?_, rfl⟩
      refine mem_filterMap.mpr ⟨dim % 128, mem_range.mpr (Nat.mod_lt _ (by decide)), ?_⟩
      rw [tile, if_pos inside]
    · obtain ⟨lane, below, small, rfl⟩ := mem_reduce there
      obtain ⟨-, dims⟩ := grid_inj small inside same
      rw [dims, kept]

/-! ### Chunks -/

/-- The gradients of a branch are the sums over the queries of the first chunks. -/
def Reduced (saved : Saved Value) (branch : Branch) (grad : Memory Value) (chunks : ℕ) : Prop :=
  ∀ batch < saved.batch, ∀ key < branch.keyLength, ∀ dim < saved.dim,
    grad ((batch * branch.keyLength + key) * saved.dim + dim)
      = ∑ query ∈ Finset.range (min (chunks * 128) saved.length), saved.keySum branch batch key dim query

omit [AddCommMonoid Value] in
theorem adjacency_eq (saved : Saved Value) (branch : Branch) : saved.adjacency branch = some
    (if saved.batch * branch.keyLength * saved.dim ≠ 0 ∧ saved.batch * saved.length * branch.slots ≠ 0 then
      some (branch.edgeOrder saved.batch saved.length, offsetsOf branch saved.batch saved.length)
    else none) := by
  unfold adjacency
  by_cases filled : saved.batch * branch.keyLength * saved.dim ≠ 0 ∧ saved.batch * saved.length * branch.slots ≠ 0
  · rw [if_pos filled, if_pos filled, Branch.inverseAdjacency_eq]
    rfl
  · rw [if_neg filled, if_neg filled]

/-- **A chunk adds the sums over its queries.** -/
theorem reduceBranch_step {chunks : ℕ} {adjacency : Option (List ℤ × List ℤ)}
    (known : saved.adjacency branch = some adjacency) (reduced : saved.Reduced branch grad chunks)
    (more : chunks * 128 < saved.length)
    (stored : saved.Stored branch (chunks * 128) (saved.chunkSize (chunks * 128)) edgeValues)
    (schedule : Schedule (saved.reduceGrid branch)) :
    saved.Reduced branch (saved.reduceBranch branch adjacency schedule.order (chunks * 128) edgeValues grad) (chunks + 1) := by
  intro batch below key here dim inside
  have size : chunks * 128 + saved.chunkSize (chunks * 128) = min ((chunks + 1) * 128) saved.length := by
    unfold chunkSize capacity
    omega
  have before : min (chunks * 128) saved.length = chunks * 128 := Nat.min_eq_left more.le
  have earlier := reduced batch below key here dim inside
  rw [adjacency_eq] at known
  rw [← size, Finset.sum_range_add, ← before, ← earlier, before]
  cases Option.some.inj known
  by_cases filled : saved.batch * branch.keyLength * saved.dim ≠ 0 ∧ saved.batch * saved.length * branch.slots ≠ 0
  · have owned : batch * branch.keyLength + key < saved.batch * branch.keyLength :=
      calc batch * branch.keyLength + key < (batch + 1) * branch.keyLength := by rw [Nat.succ_mul]; omega
        _ ≤ saved.batch * branch.keyLength := Nat.mul_le_mul_right _ below
    rw [if_pos filled]
    show launch _ schedule.order grad _ = _
    rw [reduce_cell schedule owned inside, edgeSum_eq below here inside (by omega) stored]
  · -- Without adjacency the branch has no edges, as it has this key.
    have keys : saved.batch * branch.keyLength * saved.dim ≠ 0 :=
      Nat.mul_ne_zero (Nat.mul_ne_zero (Nat.ne_zero_of_lt below) (Nat.ne_zero_of_lt here)) (Nat.ne_zero_of_lt inside)
    have slots : branch.slots = 0 := by
      by_contra some_
      exact filled ⟨keys, Nat.mul_ne_zero (Nat.mul_ne_zero (Nat.ne_zero_of_lt below) (Nat.ne_zero_of_lt more)) some_⟩
    rw [if_neg filled]
    have nothing : ∀ query ∈ Finset.range (saved.chunkSize (chunks * 128)),
        saved.keySum branch batch key dim (chunks * 128 + query) = 0 := by
      intro query _
      unfold keySum
      rw [slots]
      rfl
    rw [Finset.sum_eq_zero nothing, add_zero]
    rfl

/-- **After some chunks, the gradients of both branches are the sums over the queries of these chunks.** -/
theorem chunks_reduced {window compressed : Option (List ℤ × List ℤ)} (schedules : saved.Schedules)
    (first : saved.adjacency saved.window = some window) (second : saved.adjacency saved.compressed = some compressed)
    (empty : Memory Value) (chunks : ℕ) (within : chunks ≤ sliceCount 128 saved.length) :
    saved.Reduced saved.window (((range chunks).map (· * 128)).foldl (saved.chunk schedules window compressed)
        (empty, fun _ => 0, fun _ => 0)).2.1 chunks
      ∧ saved.Reduced saved.compressed (((range chunks).map (· * 128)).foldl
        (saved.chunk schedules window compressed) (empty, fun _ => 0, fun _ => 0)).2.2 chunks := by
  induction chunks with
  | zero =>
    refine ⟨fun batch _ key _ dim _ => ?_, fun batch _ key _ dim _ => ?_⟩
    all_goals
      rfl
  | succ chunks known =>
    obtain ⟨one, two⟩ := known (Nat.le_of_succ_le within)
    have more : chunks * 128 < saved.length := (lt_sliceCount_iff (by decide)).mp within
    have fits : saved.chunkSize (chunks * 128) ≤ saved.capacity := Nat.min_le_left _ _
    rw [range_succ, map_append, foldl_append]
    exact ⟨reduceBranch_step first one more (stored_edges (Or.inl rfl) fits _) (schedules.window _),
      reduceBranch_step second two more (stored_edges (Or.inr rfl) fits _) (schedules.compressed _)⟩

/-- **The gradient of a key is the sum over the valid edges that name it**, over both branches, for all programs of
a launch in any order. -/
theorem ordered_backward (saved : Saved Value) (schedules : saved.Schedules) (empty : Memory Value) :
    ∃ gradKv gradCompressed, saved.orderedBackward schedules empty = some (gradKv, gradCompressed) ∧
      (∀ batch < saved.batch, ∀ key < saved.kvLength, ∀ dim < saved.dim,
        gradKv ((batch * saved.kvLength + key) * saved.dim + dim)
          = ∑ query ∈ Finset.range saved.length, ∑ slot ∈ Finset.range saved.windowSlots,
              if saved.window.valid batch query slot = true ∧ saved.windowIndices batch query slot = key then
                ∑ headBlock ∈ Finset.range saved.headBlocks, saved.edgeValue batch query slot headBlock dim
              else 0)
      ∧ ∀ batch < saved.batch, ∀ key < saved.compressedLength, ∀ dim < saved.dim,
        gradCompressed ((batch * saved.compressedLength + key) * saved.dim + dim)
          = ∑ query ∈ Finset.range saved.length, ∑ slot ∈ Finset.range saved.selected,
              if saved.compressed.valid batch query slot = true ∧ saved.compressedIndices batch query slot = key then
                ∑ headBlock ∈ Finset.range saved.headBlocks,
                  saved.edgeValue batch query (saved.windowSlots + slot) headBlock dim
              else 0 := by
  have first := adjacency_eq saved saved.window
  have second := adjacency_eq saved saved.compressed
  obtain ⟨one, two⟩ := chunks_reduced schedules first second empty (sliceCount 128 saved.length) le_rfl
  have all : min (sliceCount 128 saved.length * 128) saved.length = saved.length :=
    Nat.min_eq_right (le_sliceCount_mul (by decide))
  refine ⟨_, _, Option.bind_eq_some_iff.mpr ⟨_, first, Option.bind_eq_some_iff.mpr ⟨_, second, rfl⟩⟩, ?_, ?_⟩
  · intro batch below key here dim inside
    have sum := one batch below key here dim inside
    rw [all] at sum
    refine sum.trans (sum_congr rfl fun query _ => sum_congr rfl fun slot _ => ?_)
    show (if _ then ∑ headBlock ∈ _, saved.edgeValue batch query (0 + slot) headBlock dim else 0) = _
    rw [Nat.zero_add]
    rfl
  · intro batch below key here dim inside
    have sum := two batch below key here dim inside
    rw [all] at sum
    exact sum

end Saved

end TinyDSV41.Attention.OrderedKv
