/-
**Rows of a released Engram table.**

A shard is one mapping of bytes with a header. `tensor` reads a tensor of it, `tensor_rows` some rows, and
`_load_engram_rows` the rows of an owner, chunk by chunk, with their scales.

* `frombuffer` — a part of a mapping; a count of zero is refused.
* `Stored.rows` — rows that are read are the rows of the tensor, if there are any.
* `dequantize_rows` — rows are dequantized as the table is.
* `released_rows` — an owner gets its rows of the dequantized table.
-/

import TinyDSV41.Lib.ByteStream
import TinyDSV41.Lib.Checks
import TinyDSV41.Lib.Slices

namespace TinyDSV41.Engram.Released

open List Lib

/-! ### Shards -/

structure Metadata where
  dtype : String
  shape : List ℕ
  start : ℕ
  stop : ℕ

structure SafeTensorShard where
  header : String → Option Metadata
  dataStart : ℕ
  mapping : Octets

/-- A tensor by the size of its elements and by its bytes, in the order of its rows. -/
structure Tensor where
  size : ℕ
  shape : List ℕ
  bytes : Octets
deriving DecidableEq

/-- `_torch_dtype` with `element_size()` -/
def elementSize (dtype : String) : Except String ℕ :=
  if dtype = "BF16" then .ok 2
  else if dtype = "F32" then .ok 4
  else if dtype = "I8" ∨ dtype = "F8_E4M3" ∨ dtype = "F8_E8M0" then .ok 1
  else .error s!"this PyTorch build does not support safetensors dtype {dtype}"

/-- `torch.frombuffer` -/
def frombuffer (mapping : Octets) (size count offset : ℕ) : Except String Octets :=
  if mapping = [] ∨ count = 0 then .error "both buffer length and count must not be 0"
  else if mapping.length ≤ offset then .error "offset must be no greater than buffer length minus 1"
  else if mapping.length < offset + count * size then .error "requested buffer length is greater than actual"
  else .ok ((mapping.drop offset).take (count * size))

namespace SafeTensorShard

variable (shard : SafeTensorShard) (name : String)

def tensor : Except String Tensor :=
  match shard.header name with
  | none => .error name
  | some metadata => do
    let size ← elementSize metadata.dtype
    let numel := metadata.shape.prod
    let expectedBytes := numel * size
    let range : ℤ := metadata.stop - metadata.start
    require (range = expectedBytes) s!"invalid byte range for {name}: expected {expectedBytes}, got {range}"
    let bytes ← frombuffer shard.mapping size numel (shard.dataStart + metadata.start)
    .ok ⟨size, metadata.shape, bytes⟩

def tensorRows (rowStart rowStop : ℕ) : Except String Tensor :=
  match shard.header name with
  | none => .error name
  | some metadata =>
    match metadata.shape with
    | [] => .error s!"cannot slice rows from scalar tensor {name}"
    | rows :: rest => do
      require (rowStart ≤ rowStop ∧ rowStop ≤ rows)
        s!"invalid row range for {name}: [{rowStart}, {rowStop}) of {rows}"
      let size ← elementSize metadata.dtype
      let rowNumel := rest.prod
      let expectedBytes := rows * rowNumel * size
      let range : ℤ := metadata.stop - metadata.start
      require (range = expectedBytes) s!"invalid byte range for {name}: expected {expectedBytes}, got {range}"
      let bytes ← frombuffer shard.mapping size ((rowStop - rowStart) * rowNumel)
        (shard.dataStart + metadata.start + rowStart * rowNumel * size)
      .ok ⟨size, (rowStop - rowStart) :: rest, bytes⟩

end SafeTensorShard

/-- `tensor[start:stop]` -/
def Tensor.rows (tensor : Tensor) (start stop : ℕ) : Tensor where
  size := tensor.size
  shape := (stop - start) :: tensor.shape.tail
  bytes := (tensor.bytes.drop (start * tensor.shape.tail.prod * tensor.size)).take
    ((stop - start) * tensor.shape.tail.prod * tensor.size)

/-- `ShardedSafeTensorReader`: the shard that the index names for a tensor. -/
abbrev Reader := String → Option SafeTensorShard

variable (reader : Reader) (name : String)

def Reader.read {Value : Type} (found : SafeTensorShard → Except String Value) : Except String Value :=
  match reader name with
  | none => .error s!"checkpoint tensor is missing: {name}"
  | some shard => found shard

def Reader.tensor : Except String Tensor := reader.read name (·.tensor name)

def Reader.tensorRows (rowStart rowStop : ℕ) : Except String Tensor :=
  reader.read name (·.tensorRows name rowStart rowStop)

def Reader.metadata : Except String Metadata :=
  reader.read name fun shard => (shard.header name).elim (.error name) .ok

/-! ### Tables -/

variable {Value : Type} (product : ℕ → ℕ → Value)

/-- `dequantize_fp8_rows`: the rows of values. E4M3 values and E8M0 scales are bytes; `product` multiplies them
and casts the result. -/
def dequantizeFp8Rows (weight scale : Tensor) : Except String (List (List Value)) :=
  match weight.shape, scale.shape with
  | [rows, features], [scaled, blocks] =>
    if scaled ≠ rows ∨ features ≠ blocks * 32 then
      .error s!"row-scaled FP8 shape mismatch: weight=({rows}, {features}), scale=({scaled}, {blocks})"
    else .ok ((range rows).map fun row => zipWith product (slice features weight.bytes row)
      ((slice blocks scale.bytes row).flatMap (replicate 32)))
  | _, _ => .error "FP8 weight and scale must both be matrices"

/-- The table of an owner. -/
structure OwnerTable where
  globalNumEmbeddings : ℕ
  embeddingDim : ℕ
  rowStart : ℕ
  rowStop : ℕ

variable (source : String) (table : OwnerTable) (chunkRows : ℕ)

def weightName : String := s!"{source}.engram.embed.weight"

def scaleName : String := s!"{source}.engram.embed.scale"

def checkLayout (shape : List ℕ) (dtype : String) : Except String Unit := do
  let metadata ← reader.metadata name
  require (metadata.shape = shape ∧ metadata.dtype = dtype)
    s!"invalid released Engram layout for {name}: {metadata.shape}, {metadata.dtype}"

/-- One turn of the loop of `_load_engram_rows`, `weight[start - row_start:stop - row_start].copy_(...)`. -/
def loadChunk (weight : List (Option (List Value))) (index : ℕ) : Except String (List (Option (List Value))) := do
  let start := table.rowStart + index * chunkRows
  let stop := min (start + chunkRows) table.rowStop
  let values ← reader.tensorRows (weightName source) start stop
  let scales ← reader.tensorRows (scaleName source) start stop
  let rows ← dequantizeFp8Rows product values scales
  .ok (weight.take (start - table.rowStart) ++ rows.map some ++ weight.drop (stop - table.rowStart))

/-- `_load_engram_rows`: the rows of `weight`, none where `torch.empty` was not written. The source reads 131072
rows in a chunk. -/
def loadEngramRows : Except String (List (Option (List Value))) := do
  require (table.embeddingDim % 32 = 0) "released Engram row width must be divisible by 32"
  checkLayout reader (weightName source) [table.globalNumEmbeddings, table.embeddingDim] "F8_E4M3"
  checkLayout reader (scaleName source) [table.globalNumEmbeddings, table.embeddingDim / 32] "F8_E8M0"
  (range (sliceCount chunkRows (table.rowStop - table.rowStart))).foldlM
    (loadChunk reader product source table chunkRows) (replicate (table.rowStop - table.rowStart) none)

/-! ### Reading rows -/

/-- A tensor of a shape and a type that a shard holds, all within the mapping. -/
def Stored (shape : List ℕ) (dtype : String) : Prop :=
  ∃ shard metadata size, reader name = some shard ∧ shard.header name = some metadata ∧ metadata.shape = shape ∧
    metadata.dtype = dtype ∧ elementSize dtype = .ok size ∧ metadata.stop = metadata.start + shape.prod * size ∧
    shard.dataStart + metadata.stop ≤ shard.mapping.length

variable {reader name product source table chunkRows}

theorem frombuffer_ok {mapping : Octets} {size count offset : ℕ} (sized : 0 < size) (some_ : 0 < count)
    (within : offset + count * size ≤ mapping.length) :
    frombuffer mapping size count offset = .ok ((mapping.drop offset).take (count * size)) := by
  have inside : offset < mapping.length := (Nat.lt_add_of_pos_right (Nat.mul_pos some_ sized)).trans_le within
  have filled : ¬ (mapping = [] ∨ count = 0) := by
    rintro (rfl | rfl)
    · cases inside
    · cases some_
  unfold frombuffer
  rw [if_neg filled, if_neg (not_le.mpr inside), if_neg (not_lt.mpr within)]

theorem elementSize_pos {dtype : String} {size : ℕ} (known : elementSize dtype = .ok size) : 0 < size := by
  unfold elementSize at known
  split_ifs at known <;> cases known <;> decide

/-- **Rows that are read are the rows of the tensor**, and rows without elements are refused. -/
theorem Stored.rows {rows : ℕ} {rest : List ℕ} {dtype : String} (stored : Stored reader name (rows :: rest) dtype) :
    ∃ whole : Tensor, whole.shape = rows :: rest ∧ elementSize dtype = .ok whole.size ∧
      (0 < rows * rest.prod → reader.tensor name = .ok whole) ∧
      ∀ start stop, start ≤ stop → stop ≤ rows → ∀ part, reader.tensorRows name start stop = .ok part ↔
        0 < (stop - start) * rest.prod ∧ whole.rows start stop = part := by
  obtain ⟨shard, metadata, size, held, found, shape, rfl, known, ends, inside⟩ := stored
  have positive := elementSize_pos known
  rw [prod_cons] at ends
  refine ⟨⟨size, rows :: rest, (shard.mapping.drop (shard.dataStart + metadata.start)).take (rows * rest.prod * size)⟩,
    rfl, known, fun some_ => ?_, fun start stop ordered within part => ?_⟩
  · unfold Reader.tensor Reader.read SafeTensorShard.tensor
    simp only [held, found, shape, prod_cons, bind_eq_ok, require_eq_ok]
    exact ⟨size, known, (), by omega, _, frombuffer_ok positive some_ (by omega), rfl⟩
  · have fits : start * rest.prod * size + (stop - start) * rest.prod * size ≤ rows * rest.prod * size := by
      rw [← Nat.add_mul, ← Nat.add_mul, Nat.add_sub_cancel' ordered]
      exact Nat.mul_le_mul_right _ (Nat.mul_le_mul_right _ within)
    unfold Reader.tensorRows Reader.read SafeTensorShard.tensorRows Tensor.rows
    simp only [held, found, shape, bind_eq_ok, require_eq_ok, tail_cons]
    rw [drop_take, drop_drop, take_take, Nat.min_eq_left (by omega)]
    constructor
    · rintro ⟨-, -, _, read, -, -, bytes, buffer, same⟩
      cases known.symm.trans read
      have some_ : 0 < (stop - start) * rest.prod := by
        refine Nat.pos_of_ne_zero fun none_ => ?_
        rw [none_, frombuffer, if_pos (Or.inr rfl)] at buffer
        cases buffer
      rw [frombuffer_ok positive some_ (by omega)] at buffer
      cases buffer
      exact ⟨some_, Except.ok.inj same⟩
    · rintro ⟨some_, rfl⟩
      exact ⟨(), ⟨ordered, within⟩, size, known, (), by omega, _, frombuffer_ok positive some_ (by omega), rfl⟩

theorem Stored.layout {shape : List ℕ} {dtype : String} (stored : Stored reader name shape dtype) :
    checkLayout reader name shape dtype = .ok () := by
  obtain ⟨shard, metadata, -, held, found, same, type, -⟩ := stored
  unfold checkLayout Reader.metadata Reader.read
  rw [held]
  dsimp only
  rw [found]
  exact require_eq_ok.mpr ⟨same, type⟩

/-! ### The rows of an owner -/

/-- `rows[start:stop]` -/
def between (rows : List (List Value)) (start stop : ℕ) : List (List Value) := (rows.drop start).take (stop - start)

theorem slice_part {first count index size : ℕ} {list : Octets} (inside : index < count) :
    slice size ((list.drop (first * size)).take (count * size)) index = slice size list (first + index) := by
  have room : (index + 1) * size ≤ count * size := Nat.mul_le_mul_right _ inside
  rw [Nat.succ_mul] at room
  unfold slice
  rw [drop_take, take_take, drop_drop, Nat.min_eq_left (by omega), Nat.add_mul]

/-- **Rows are dequantized as the table is.** -/
theorem dequantize_rows {weight scale : Tensor} {full : List (List Value)} {start stop : ℕ}
    (sizes : weight.size = 1 ∧ scale.size = 1) (read : dequantizeFp8Rows product weight scale = .ok full)
    (within : stop ≤ full.length) :
    dequantizeFp8Rows product (weight.rows start stop) (scale.rows start stop) = .ok (between full start stop) := by
  unfold dequantizeFp8Rows at read
  split at read
  · rename_i rows features scaled blocks wide thin
    split_ifs at read with fits
    cases read
    rw [length_map, length_range] at within
    unfold dequantizeFp8Rows Tensor.rows
    simp only [wide, thin, sizes, tail_cons, prod_singleton, Nat.mul_one]
    rw [if_neg fun differs => fits (differs.imp (absurd rfl) id)]
    refine congrArg Except.ok (ext_getElem? fun row => ?_)
    unfold between
    rw [getElem?_map]
    by_cases inside : row < stop - start
    · rw [getElem?_take_of_lt inside, getElem?_drop, getElem?_map, getElem?_range inside, getElem?_range (by omega),
        Option.map_some, Option.map_some, slice_part inside, slice_part inside]
    · rw [getElem?_eq_none (by simpa using inside), getElem?_eq_none (by rw [length_take]; omega)]
      rfl
  · cases read

/-- A released table and the rows of an owner. -/
structure OwnerTable.WellFormed (table : OwnerTable) (reader : Reader) (source : String) : Prop where
  width : table.embeddingDim % 32 = 0
  weight : Stored reader (weightName source) [table.globalNumEmbeddings, table.embeddingDim] "F8_E4M3"
  scale : Stored reader (scaleName source) [table.globalNumEmbeddings, table.embeddingDim / 32] "F8_E8M0"
  filled : 0 < table.globalNumEmbeddings
  wide : 0 < table.embeddingDim
  ordered : table.rowStart ≤ table.rowStop
  within : table.rowStop ≤ table.globalNumEmbeddings

/-- What `weight` holds when some rows are written. -/
def written (full : List (List Value)) (table : OwnerTable) (count : ℕ) : List (Option (List Value)) :=
  (between full table.rowStart (table.rowStart + count)).map some
    ++ replicate (table.rowStop - table.rowStart - count) none

theorem written_chunk {full : List (List Value)} {count more : ℕ} (within : table.rowStop ≤ full.length)
    (below : count + more ≤ table.rowStop - table.rowStart) :
    (written full table count).take count
        ++ (between full (table.rowStart + count) (table.rowStart + count + more)).map some
        ++ (written full table count).drop (count + more) = written full table (count + more) := by
  have sized : ((between full table.rowStart (table.rowStart + count)).map some).length = count := by
    rw [length_map, between, length_take, length_drop]
    omega
  unfold written
  rw [take_left' sized, ← drop_drop, drop_left' sized, drop_replicate, Nat.sub_sub, ← map_append]
  unfold between
  rw [Nat.add_sub_cancel_left, Nat.add_sub_cancel_left, Nat.add_sub_cancel_left, ← drop_drop, ← take_add]

/-- **An owner gets its rows of the dequantized table**, and rows of a tensor are read if there are any. -/
theorem released_rows (product : ℕ → ℕ → Value) (well : table.WellFormed reader source) (positive : 0 < chunkRows) :
    (∃ values scales full, reader.tensor (weightName source) = .ok values ∧
      reader.tensor (scaleName source) = .ok scales ∧ dequantizeFp8Rows product values scales = .ok full ∧
      loadEngramRows reader product source table chunkRows
        = .ok ((between full table.rowStart table.rowStop).map some) ∧
      ∀ start stop, stop ≤ table.globalNumEmbeddings →
        dequantizeFp8Rows product (values.rows start stop) (scales.rows start stop) = .ok (between full start stop)) ∧
    ∀ name rows rest dtype, Stored reader name (rows :: rest) dtype → ∀ start stop, start ≤ stop → stop ≤ rows →
      ((∃ whole, reader.tensor name = .ok whole ∧ reader.tensorRows name start stop = .ok (whole.rows start stop)) ↔
        0 < (stop - start) * rest.prod) := by
  refine ⟨?_, fun name rows rest dtype stored start stop ordered within => ?_⟩
  · obtain ⟨width, weighted, scaled, filled, some_, ordered, within⟩ := well
    have blocks : 0 < table.embeddingDim / 32 := by omega
    obtain ⟨values, wide, size, weight, valuesRows⟩ := weighted.rows
    obtain ⟨scales, thin, size', scale, scalesRows⟩ := scaled.rows
    simp only [prod_singleton] at weight scale valuesRows scalesRows
    have sizes : values.size = 1 ∧ scales.size = 1 := ⟨(Except.ok.inj size).symm, (Except.ok.inj size').symm⟩
    obtain ⟨full, dequantized, length⟩ : ∃ full, dequantizeFp8Rows product values scales = .ok full ∧
        full.length = table.globalNumEmbeddings := by
      unfold dequantizeFp8Rows
      rw [wide, thin]
      dsimp only
      rw [if_neg (by omega)]
      exact ⟨_, rfl, by rw [length_map, length_range]⟩
    have parts : ∀ {start stop}, stop ≤ table.globalNumEmbeddings →
        dequantizeFp8Rows product (values.rows start stop) (scales.rows start stop) = .ok (between full start stop) :=
      fun within => dequantize_rows sizes dequantized (length ▸ within)
    refine ⟨values, scales, full, weight (Nat.mul_pos filled some_), scale (Nat.mul_pos filled blocks), dequantized, ?_, fun _ _ => parts⟩
    have chunks : ∀ count ≤ sliceCount chunkRows (table.rowStop - table.rowStart), (range count).foldlM
        (loadChunk reader product source table chunkRows) (replicate (table.rowStop - table.rowStart) none)
          = .ok (written full table (min (count * chunkRows) (table.rowStop - table.rowStart))) := by
      intro count
      induction count with
      | zero =>
        intro _
        simp [written, between, pure, Except.pure]
      | succ count known =>
        intro below
        have inside := (lt_sliceCount_iff positive).mp below
        obtain ⟨more, stop, grows, last⟩ : ∃ more, min (table.rowStart + count * chunkRows + chunkRows) table.rowStop
            = table.rowStart + count * chunkRows + more ∧ 0 < more ∧
            min ((count + 1) * chunkRows) (table.rowStop - table.rowStart) = count * chunkRows + more :=
          ⟨min chunkRows (table.rowStop - table.rowStart - count * chunkRows), by omega, by omega,
            by rw [Nat.succ_mul]; omega⟩
        rw [range_succ, foldlM_append, known (Nat.le_of_succ_le below), Nat.min_eq_left inside.le, last,
          ← written_chunk (by omega) (by omega)]
        refine bind_eq_ok.mpr ⟨_, rfl, ?_⟩
        rw [foldlM_cons]
        refine bind_eq_ok.mpr ⟨_, ?_, rfl⟩
        unfold loadChunk
        dsimp only
        rw [stop, Nat.add_assoc, Nat.add_sub_cancel_left, Nat.add_sub_cancel_left]
        refine bind_eq_ok.mpr ⟨_, (valuesRows _ _ (by omega) (by omega) _).mpr ⟨Nat.mul_pos (by omega) some_, rfl⟩,
          bind_eq_ok.mpr ⟨_, (scalesRows _ _ (by omega) (by omega) _).mpr ⟨Nat.mul_pos (by omega) blocks, rfl⟩,
          bind_eq_ok.mpr ⟨_, parts (by omega), ?_⟩⟩⟩
        rfl
    unfold loadEngramRows
    refine bind_eq_ok.mpr ⟨(), require_eq_ok.mpr width, bind_eq_ok.mpr ⟨(), weighted.layout,
      bind_eq_ok.mpr ⟨(), scaled.layout, (chunks _ le_rfl).trans ?_⟩⟩⟩
    rw [Nat.min_eq_right (le_sliceCount_mul positive)]
    unfold written
    rw [Nat.add_sub_cancel' ordered, Nat.sub_self, replicate_zero, append_nil]
  · obtain ⟨whole, -, -, read, parts⟩ := stored.rows
    constructor
    · rintro ⟨_, -, part⟩
      exact ((parts start stop ordered within _).mp part).1
    · intro some_
      exact ⟨whole, read (some_.trans_le (Nat.mul_le_mul_right _ ((Nat.sub_le stop start).trans within))),
        (parts start stop ordered within _).mpr ⟨some_, rfl⟩⟩

def twoRows : SafeTensorShard where
  header name := some (if name = weightName "" then ⟨"F8_E4M3", [2, 32], 0, 64⟩ else ⟨"F8_E8M0", [2, 1], 64, 66⟩)
  dataStart := 8
  mapping := replicate 74 0

theorem twoRows_weight : Stored (fun _ => some twoRows) (weightName "") [2, 32] "F8_E4M3" :=
  ⟨twoRows, _, 1, rfl, congrArg some (if_pos rfl), rfl, rfl, rfl, rfl, by decide⟩

theorem second_row : ∃ full, loadEngramRows (fun _ => some twoRows) (· * ·) "" ⟨2, 32, 1, 2⟩ 1
    = .ok ((between full 1 2).map some) := by
  have well : OwnerTable.WellFormed ⟨2, 32, 1, 2⟩ (fun _ => some twoRows) "" :=
    ⟨rfl, twoRows_weight, ⟨twoRows, _, 1, rfl, congrArg some (if_neg (by decide)), rfl, rfl, rfl, rfl, by decide⟩,
      by decide, by decide, by decide, by decide⟩
  obtain ⟨-, -, full, -, -, -, loaded, -⟩ := (released_rows (· * ·) well Nat.one_pos).1
  exact ⟨full, loaded⟩

/-- No rows are a range that is checked, and are refused. -/
theorem no_rows_refused : ∃ whole, Reader.tensor (fun _ => some twoRows) (weightName "") = .ok whole ∧
    Reader.tensorRows (fun _ => some twoRows) (weightName "") 0 0 ≠ .ok (whole.rows 0 0) := by
  obtain ⟨whole, -, -, read, parts⟩ := twoRows_weight.rows
  exact ⟨whole, read (by decide), fun part => absurd ((parts 0 0 le_rfl (by decide) _).mp part).1 (by decide)⟩

end TinyDSV41.Engram.Released
