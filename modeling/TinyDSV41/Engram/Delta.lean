/-
**Sparse Engram payloads and their validation.**

A payload holds, for each table, row indices and the rows under them, relative to a baseline. Sums over
rows, number formats and the bytes of tensors are left out: a tensor is its items along the first
dimension, and whether a row is finite is a parameter.

* `validateDelta` — the checks of a payload, in their order.
* `validateDelta_ok` — exactly which payloads pass.
-/

import TinyDSV41.Lib.OrderedTable
import Mathlib.Data.List.Sort

namespace TinyDSV41.Engram

open List Lib OrderedTable Bool

inductive DType
  | int64
  | float32
  | bfloat16
  | other
deriving DecidableEq

/-- A tensor by its items along the first dimension. -/
structure Tensor (Item : Type) where
  cpu : Bool
  dtype : DType
  shape : List ℕ
  items : List Item
  sized : ∀ length rest, shape = length :: rest → items.length = length

/-- The row record of a table. `malformed` is no dictionary of these two fields; in `untyped` one of them is no
tensor. -/
inductive Record (Row : Type)
  | malformed
  | untyped
  | rows (indices : Tensor ℤ) (values : Tensor Row)

structure Delta (Identity Row : Type) where
  format : ℤ
  base : Identity
  tables : OrderedTable String (Record Row)

/-- A payload. `malformed` is any value without exactly these fields and their types. -/
inductive Payload (Identity Row : Type)
  | malformed
  | delta (delta : Delta Identity Row)

abbrev Shapes := OrderedTable String (ℕ × ℕ)

def names {Value : Type} (table : OrderedTable String Value) : List String := table.items.map Prod.fst

/-- `(indices[1:] <= indices[:-1]).any()` is false. -/
def increasing : List ℤ → Bool
  | [] => true
  | [_] => true
  | first :: second :: rest => decide (first < second) && increasing (second :: rest)

def checkIndices (indices : List ℤ) (rows : ℕ) : Bool :=
  match indices.head?, indices.getLast? with
  | some first, some last => decide (0 ≤ first) && decide (last < rows) && increasing indices
  | _, _ => true

variable {Identity Row : Type} [DecidableEq Identity] (finite : Row → Bool)

def Record.isRecord : Record Row → Bool
  | .malformed => false
  | .untyped | .rows _ _ => true

def checkRecord (rows width : ℕ) (dtype : DType) : Record Row → Bool
  | .malformed | .untyped => false
  | .rows indices values =>
    indices.cpu && decide (indices.dtype = .int64) && decide (indices.shape.length = 1) &&
      values.cpu && decide (values.dtype = dtype) &&
      decide (values.shape = [indices.items.length, width]) && checkIndices indices.items rows &&
      values.items.all finite

def checkRecords (delta : Delta Identity Row) (dtype : DType) : List (String × ℕ × ℕ) → Except String Unit
  | [] => .ok ()
  | (name, rows, width) :: rest =>
    if (delta.tables.get? name).any Record.isRecord = false then
      .error s!"invalid Engram row record: {name}"
    else if (delta.tables.get? name).any (checkRecord finite rows width dtype) = false then
      .error s!"invalid Engram delta indices, dtype, shape or values: {name}"
    else checkRecords delta dtype rest

/-- `validate_delta` -/
def validateDelta (payload : Payload Identity Row) (identity : Identity) (shapes : Shapes)
    (dtype : DType) : Except String Unit :=
  match payload with
  | .malformed => .error "Engram delta format or baseline identity differs"
  | .delta delta =>
    if delta.format ≠ 1 ∨ delta.base ≠ identity ∨ ¬ (names delta.tables).Perm (names shapes) then
      .error "Engram delta format or baseline identity differs"
    else checkRecords finite delta dtype shapes.items

/-! ### What passes -/

/-- Indices of rows, in increasing order. -/
structure RowIds (indices : List ℤ) (rows : ℕ) : Prop where
  increasing : indices.Pairwise (· < ·)
  within : ∀ id ∈ indices, 0 ≤ id ∧ id < rows

/-- Two tensors of the right types and shapes. -/
structure Typed (finite : Row → Bool) (width : ℕ) (dtype : DType) (indices : Tensor ℤ)
    (values : Tensor Row) : Prop where
  indices_cpu : indices.cpu = true
  indices_dtype : indices.dtype = .int64
  indices_shape : indices.shape = [indices.items.length]
  values_cpu : values.cpu = true
  values_dtype : values.dtype = dtype
  values_shape : values.shape = [indices.items.length, width]
  finite_values : ∀ row ∈ values.items, finite row = true

structure Fits (finite : Row → Bool) (rows width : ℕ) (dtype : DType) (indices : Tensor ℤ)
    (values : Tensor Row) : Prop extends Typed finite width dtype indices values where
  ids : RowIds indices.items rows

variable {indices : List ℤ} {rows width : ℕ} {dtype : DType}

theorem RowIds.nodup (ids : RowIds indices rows) : indices.Nodup :=
  ids.increasing.imp ne_of_lt

theorem increasing_iff : increasing indices = true ↔ indices.Pairwise (· < ·) := by
  induction indices with
  | nil => simp [increasing]
  | cons first rest known =>
    cases rest with
    | nil => simp [increasing]
    | cons second rest =>
      rw [increasing, and_eq_true, decide_eq_true_eq, known]
      refine ⟨fun ⟨below, later⟩ => pairwise_cons.mpr ⟨fun other mem => ?_, later⟩, ?_⟩
      rotate_left
      · intro sorted
        obtain ⟨below, later⟩ := pairwise_cons.mp sorted
        exact ⟨below second mem_cons_self, later⟩
      rcases mem_cons.mp mem with rfl | mem
      · exact below
      · exact below.trans ((pairwise_cons.mp later).1 other mem)

theorem le_getLast (sorted : indices.Pairwise (· < ·)) (filled : indices ≠ []) {id : ℤ}
    (mem : id ∈ indices) : id ≤ indices.getLast filled := by
  rw [← dropLast_append_getLast filled] at sorted mem
  rcases mem_append.mp mem with before | last
  · exact ((pairwise_append.mp sorted).2.2 id before _ (mem_singleton_self _)).le
  · exact (mem_singleton.mp last).le

theorem checkIndices_iff : checkIndices indices rows = true ↔ RowIds indices rows := by
  cases indices with
  | nil => exact ⟨fun _ => ⟨List.Pairwise.nil, nofun⟩, fun _ => rfl⟩
  | cons first rest =>
    have ends := getLast?_eq_some_getLast (cons_ne_nil first rest)
    unfold checkIndices
    rw [head?_cons, ends]
    rw [and_eq_true, and_eq_true, decide_eq_true_eq, decide_eq_true_eq, increasing_iff]
    constructor
    · rintro ⟨⟨positive, below⟩, sorted⟩
      refine ⟨sorted, fun id mem => ⟨?_, ?_⟩⟩
      · rcases mem_cons.mp mem with rfl | mem
        · exact positive
        · exact positive.trans ((pairwise_cons.mp sorted).1 id mem).le
      · exact (le_getLast sorted (cons_ne_nil _ _) mem).trans_lt below
    · intro ids
      exact ⟨⟨(ids.within first mem_cons_self).1, (ids.within _ (getLast_mem _)).2⟩, ids.increasing⟩

variable {finite}

omit [DecidableEq Identity] in
theorem checkRecord_iff {record : Record Row} : checkRecord finite rows width dtype record = true ↔
    ∃ indices values, record = .rows indices values ∧ Fits finite rows width dtype indices values := by
  cases record with
  | malformed | untyped => exact ⟨nofun, fun ⟨_, _, same, _⟩ => (by cases same)⟩
  | rows indices values =>
    unfold checkRecord
    simp only [and_eq_true, decide_eq_true_eq, all_eq_true, checkIndices_iff]
    constructor
    · rintro ⟨⟨⟨⟨⟨⟨⟨cpu, int⟩, flat⟩, cpu'⟩, same⟩, shape⟩, ids⟩, all⟩
      obtain ⟨length, single⟩ := length_eq_one_iff.mp flat
      have sized := indices.sized length [] single
      exact ⟨indices, values, rfl, ⟨cpu, int, by rw [single, sized], cpu', same, shape, all⟩, ids⟩
    · rintro ⟨_, _, same, fits⟩
      cases same
      have flat : indices.shape.length = 1 := by rw [fits.indices_shape, length_singleton]
      exact ⟨⟨⟨⟨⟨⟨⟨fits.indices_cpu, fits.indices_dtype⟩, flat⟩, fits.values_cpu⟩,
        fits.values_dtype⟩, fits.values_shape⟩, fits.ids⟩, fits.finite_values⟩

omit [DecidableEq Identity] in
theorem checkRecords_ok {delta : Delta Identity Row} {tables : List (String × ℕ × ℕ)} :
    checkRecords finite delta dtype tables = .ok () ↔ ∀ name rows width,
      (name, rows, width) ∈ tables → ∃ indices values,
        delta.tables.get? name = some (.rows indices values) ∧
          Fits finite rows width dtype indices values := by
  induction tables with
  | nil => exact ⟨nofun, fun _ => rfl⟩
  | cons table rest known =>
    obtain ⟨name, rows, width⟩ := table
    unfold checkRecords
    split_ifs with shapeless refused
    · refine ⟨nofun, fun fits => ?_⟩
      obtain ⟨indices, values, found, -⟩ := fits name rows width mem_cons_self
      rw [found] at shapeless
      cases shapeless
    · refine ⟨nofun, fun fits => ?_⟩
      obtain ⟨indices, values, found, fit⟩ := fits name rows width mem_cons_self
      rw [found, Option.any_some, checkRecord_iff.mpr ⟨_, _, rfl, fit⟩] at refused
      cases refused
    · rw [known]
      constructor
      · intro others other rows' width' mem
        rcases mem_cons.mp mem with same | mem
        · cases same
          have accepted := eq_true_of_not_eq_false refused
          obtain ⟨record, found, fits⟩ := (Option.any_eq_true _ _).mp accepted
          obtain ⟨indices, values, rfl, fit⟩ := checkRecord_iff.mp fits
          exact ⟨indices, values, found, fit⟩
        · exact others other rows' width' mem
      · exact fun fits other rows' width' mem =>
          fits other rows' width' (mem_cons_of_mem _ mem)

variable {payload : Payload Identity Row} {identity : Identity} {shapes : Shapes}

structure Valid (finite : Row → Bool) (identity : Identity) (shapes : Shapes) (dtype : DType)
    (delta : Delta Identity Row) : Prop where
  format : delta.format = 1
  base : delta.base = identity
  names : (names delta.tables).Perm (names shapes)
  records : ∀ name rows width, shapes.get? name = some (rows, width) → ∃ indices values,
    delta.tables.get? name = some (.rows indices values) ∧ Fits finite rows width dtype indices values

/-- **The payloads that pass.** -/
theorem validateDelta_ok : validateDelta finite payload identity shapes dtype = .ok () ↔
    ∃ delta, payload = .delta delta ∧ Valid finite identity shapes dtype delta := by
  cases payload with
  | malformed => exact ⟨nofun, fun ⟨_, same, _⟩ => (by cases same)⟩
  | delta delta =>
    unfold validateDelta
    dsimp only
    split_ifs with differs
    · refine ⟨nofun, ?_⟩
      rintro ⟨_, same, valid⟩
      cases same
      rcases differs with other | other | other
      · exact absurd valid.format other
      · exact absurd valid.base other
      · exact absurd valid.names other
    · obtain ⟨format, others⟩ := not_or.mp differs
      obtain ⟨base, same⟩ := not_or.mp others
      rw [checkRecords_ok]
      constructor
      · intro fits
        exact ⟨delta, rfl, not_not.mp format, not_not.mp base, not_not.mp same,
          fun name rows width found => fits name rows width (mem_items.mpr found)⟩
      · rintro ⟨_, same, valid⟩ name rows width mem
        cases same
        exact valid.records name rows width (mem_items.mp mem)

end TinyDSV41.Engram
