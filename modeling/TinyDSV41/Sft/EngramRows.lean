/-
**The rows of Engram tables by index.**

* `Yields` — every stored row once, in the order of the indices.
* `batches_yield` — owners that follow each other yield what they store.
* `full_yields`, `sparse_yields` — whole tables, and sparse ones.
-/

import TinyDSV41.Sft.Cover

namespace TinyDSV41.Sft

open List Lib Piece

variable {Row : Type} {chunkBytes : ℕ} {equal : Row → Row → Bool}

def yielded (batches : List (List ℤ × List Row)) : List (ℤ × Row) :=
  batches.flatMap fun batch => batch.1.zip batch.2

/-- Every stored row is yielded once, in the order of the indices. -/
structure Yields (batches : List (List ℤ × List Row)) (stored : ℤ → Row → Prop) : Prop where
  matched : ∀ batch ∈ batches, batch.1.length = batch.2.length
  increasing : ((yielded batches).map Prod.fst).Pairwise (· < ·)
  rows : ∀ id row, (id, row) ∈ yielded batches ↔ stored id row

/-- The sparse rows of an owner, after the checks of their indices and of their shape. -/
structure SparseRows.Valid (record : SparseRows Row) : Prop where
  ordered : record.start ≤ record.stop
  increasing : record.ids.Pairwise (· < ·)
  inside : ∀ id ∈ record.ids, 0 ≤ id ∧ id < record.stop - record.start
  sized : record.values.Sized record.ids.length

def SparseRows.range (record : SparseRows Row) : Span := (record.start, record.stop)

def batches (chunkBytes : ℕ) (record : SparseRows Row) : List (List ℤ × List Row) :=
  (chunks chunkBytes record.values).map fun chunk =>
    ((rowsBetween record.ids chunk.1 chunk.2.1).map (· + record.start), chunk.2.2)

def SparseRows.rows (record : SparseRows Row) : List (ℤ × Row) :=
  (record.ids.map (· + record.start)).zip record.values.rows

variable {record : SparseRows Row}

theorem batches_matched (valid : record.Valid) :
    ∀ batch ∈ batches chunkBytes record, batch.1.length = batch.2.length := by
  intro batch mem
  obtain ⟨chunk, there, rfl⟩ := mem_map.mp mem
  obtain ⟨stops, below⟩ := chunks_each valid.sized chunk there
  have length : ((rowsBetween record.ids chunk.1 chunk.2.1).map (· + record.start)).length = chunk.2.2.length := by
    unfold rowsBetween
    rw [length_map, length_take, length_drop]
    omega
  exact length

theorem batches_rows (valid : record.Valid) : yielded (batches chunkBytes record) = record.rows := by
  have rows := chunks_zipWith chunkBytes (fun row id => (id + record.start, row)) record.ids valid.sized
  unfold yielded batches SparseRows.rows
  rw [zip_eq_zipWith, zipWith_map_left, zipWith_comm, ← rows, flatMap_map]
  refine flatMap_congr fun chunk _ => ?_
  rw [zip_eq_zipWith, zipWith_map_left, zipWith_comm]

theorem mem_rows {id : ℤ} {row : Row} :
    (id, row) ∈ record.rows ↔ (id - record.start, row) ∈ record.ids.zip record.values.rows := by
  unfold SparseRows.rows
  rw [zip_map_left, mem_map]
  constructor
  · rintro ⟨⟨place, found⟩, mem, same⟩
    obtain ⟨rfl, rfl⟩ := Prod.mk.inj same
    rw [Int.add_sub_cancel]
    exact mem
  · intro mem
    exact ⟨_, mem, Prod.ext (Int.sub_add_cancel id record.start) rfl⟩

theorem rows_keys (valid : record.Valid) : record.rows.map Prod.fst = record.ids.map (· + record.start) :=
  map_fst_zip (by rw [length_map, valid.sized.rows])

variable {records : List (SparseRows Row)}

/-- **Owners that follow each other** yield what they store. -/
theorem batches_yield (chunkBytes : ℕ) {low high : ℤ} (valid : ∀ record ∈ records, record.Valid)
    (consecutive : Span.Consecutive low high (records.map SparseRows.range)) :
    Yields (records.flatMap (batches chunkBytes)) fun id row =>
      ∃ record ∈ records, (id - record.start, row) ∈ record.ids.zip record.values.rows := by
  have all : yielded (records.flatMap (batches chunkBytes)) = records.flatMap SparseRows.rows := by
    unfold yielded
    rw [flatMap_assoc]
    exact flatMap_congr fun record mem => batches_rows (valid record mem)
  refine ⟨fun batch mem => ?_, ?_, fun id row => ?_⟩
  · obtain ⟨record, there, mem⟩ := mem_flatMap.mp mem
    exact batches_matched (valid record there) batch mem
  · rw [all, map_flatMap, pairwise_flatMap]
    constructor
    · intro record mem
      rw [rows_keys (valid record mem), pairwise_map]
      exact (valid record mem).increasing.imp fun less => by omega
    · have apart : records.Pairwise fun one two => one.stop ≤ two.start := pairwise_map.mp consecutive.apart
      refine apart.imp_of_mem fun {one two} first second order id mem other member' => ?_
      rw [rows_keys (valid one first)] at mem
      rw [rows_keys (valid two second)] at member'
      obtain ⟨here, there, rfl⟩ := mem_map.mp mem
      obtain ⟨here', there', rfl⟩ := mem_map.mp member'
      have := (valid one first).inside here there
      have := (valid two second).inside here' there'
      omega
  · rw [all, mem_flatMap]
    exact exists_congr fun record => and_congr_right fun _ => mem_rows

/-! ### Sparse tables -/

variable {name : String}

theorem coverSparse_consecutive {total cursor : ℤ}
    (ordered : ∀ record ∈ records, record.start ≤ record.stop)
    (covered : coverSparse name total cursor records = .ok ()) :
    Span.Consecutive cursor total (records.map SparseRows.range) := by
  induction records generalizing cursor with
  | nil =>
    unfold coverSparse at covered
    split_ifs at covered with differs
    exact not_not.mp differs
  | cons record rest known =>
    obtain ⟨here, later⟩ := forall_mem_cons.mp ordered
    unfold coverSparse at covered
    split_ifs at covered with differs
    exact ⟨not_not.mp differs, here, known later covered⟩

theorem mem_sortOwners :
    record ∈ sortOwners records ↔ record ∈ records := (perm_insertionSort _ records).mem_iff

/-- **Sparse tables** yield every stored row once, in the order of the indices. -/
theorem sparse_yields {total : ℤ} (valid : ∀ record ∈ records, record.Valid)
    (covered : coverSparse name total 0 (sortOwners records) = .ok ()) :
    Yields (iterSparse chunkBytes records) fun id row =>
      ∃ record ∈ records, (id - record.start, row) ∈ record.ids.zip record.values.rows := by
  have valid' : ∀ record ∈ sortOwners records, record.Valid := fun record mem =>
    valid record (mem_sortOwners.mp mem)
  have known := batches_yield chunkBytes valid'
    (coverSparse_consecutive (fun record mem => (valid' record mem).ordered) covered)
  refine ⟨known.matched, known.increasing, fun id row => (known.rows id row).trans ?_⟩
  exact exists_congr fun record => and_congr_left fun _ => mem_sortOwners

/-! ### Whole tables -/

def Piece.stored (piece : Piece Row) : SparseRows Row where
  start := piece.start
  stop := piece.stop
  ids := arange (piece.stop - piece.start).toNat
  values := piece.value

theorem arange_increasing (length : ℕ) : (arange length).Pairwise (· < ·) := by
  exact pairwise_map.mpr (pairwise_lt_range.imp Int.ofNat_lt.mpr)

variable {shape : List ℕ}

theorem stored_valid {piece : Piece Row} (fits : piece.Fits shape) : piece.stored.Valid where
  ordered := fits.ordered
  increasing := arange_increasing _
  inside id member := by
    have inside := mem_arange.mp member
    have same : piece.stored.stop - piece.stored.start = piece.stop - piece.start := rfl
    omega
  sized := by
    unfold stored
    rw [arange_length]
    exact fits.sized

theorem arange_between {length start stop : ℕ} (below : stop ≤ length) :
    rowsBetween (arange length) start stop = (arange (stop - start)).map (· + (start : ℤ)) := by
  unfold rowsBetween arange
  refine ext_getElem (by simp; omega) fun index first second => ?_
  simp [Int.add_comm]

theorem iterFull_batches {pieces : List (Piece Row)} (fits : ∀ piece ∈ pieces, piece.Fits shape) :
    iterFull chunkBytes pieces = (pieces.map stored).flatMap (batches chunkBytes) := by
  rw [flatMap_map]
  refine flatMap_congr fun piece mem => map_congr_left fun chunk there => ?_
  obtain ⟨-, below⟩ := chunks_each (fits piece mem).sized chunk there
  unfold stored
  rw [arange_between below, map_map]
  refine congrArg (·, chunk.2.2) (map_congr_left fun id _ => ?_)
  show id + (piece.start + chunk.1) = id + chunk.1 + piece.start
  omega

/-- **Whole tables** yield the rows of all their pieces once, in the order of the indices. -/
theorem full_yields {pieces result : List (Piece Row)} (fits : ∀ piece ∈ pieces, piece.Fits shape)
    (engram : contains name ".engram_tables." = true)
    (covered : cover chunkBytes equal name shape pieces = .ok result) :
    Yields (iterFull chunkBytes result) fun id row =>
      ∃ piece ∈ pieces, rowAt piece.value.rows (id - piece.start) = some row := by
  have covers := cover_result fits covered
  have fits' : ∀ piece ∈ result, piece.Fits shape := fun piece mem => fits piece (covers.known piece mem)
  have valid : ∀ record ∈ result.map stored, record.Valid := by
    intro record mem
    obtain ⟨piece, there, rfl⟩ := mem_map.mp mem
    exact stored_valid (fits' piece there)
  have ranges : (result.map stored).map SparseRows.range = result.map Piece.range := by
    rw [map_map]
    rfl
  have known := batches_yield chunkBytes valid (ranges ▸ covers.consecutive)
  rw [← iterFull_batches fits'] at known
  refine ⟨known.matched, known.increasing, fun id row => (known.rows id row).trans ?_⟩
  constructor
  · rintro ⟨_, mem, found⟩
    obtain ⟨piece, there, rfl⟩ := mem_map.mp mem
    exact ⟨piece, covers.known piece there, (mem_arange_zip (fits' piece there).sized.rows).mp found⟩
  · rintro ⟨piece, mem, found⟩
    have rows := (fits piece mem).sized.rows
    have within := rowAt_within found
    rcases covers.all piece mem (by omega) with kept | ⟨plain, -⟩
    · exact ⟨_, mem_map_of_mem kept, (mem_arange_zip rows).mpr found⟩
    · rw [engram] at plain
      cases plain

end TinyDSV41.Sft
