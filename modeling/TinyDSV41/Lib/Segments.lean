/-
**Segments of a list, addressed by where they start.**

* `exclusive` — where consecutive segments of given lengths start.
* `segmentPositions` — the positions of segments, one segment after the other, by index arithmetic.
* `segmentPositions_eq` — these are the positions that each segment has.
* `select_located` — segments in any order are selected by their positions.
* `columns` — the columns of a matrix.
* `transposed_select`, `transposed_perm` — segments that form a matrix are put in the order of its columns.
-/

import TinyDSV41.Lib.Exchange
import TinyDSV41.Lib.Slices
import Mathlib.Algebra.BigOperators.Group.List.Basic
import Mathlib.Data.List.Flatten

namespace TinyDSV41.Lib

open List

variable {Item Other : Type}

def cumsumFrom (total : ℤ) : List ℕ → List ℤ
  | [] => []
  | value :: values => (total + value) :: cumsumFrom (total + value) values

/-- `cumsum(0)` -/
def cumsum (values : List ℕ) : List ℤ := cumsumFrom 0 values

/-- `lengths.cumsum(0) - lengths`: where consecutive segments start. -/
def exclusive (lengths : List ℕ) : List ℤ :=
  zipWith (fun (total : ℤ) (length : ℕ) => total - length) (cumsum lengths) lengths

/-- `torch.arange(lengths.shape[0]).repeat_interleave(lengths)` -/
def repeatInterleave (lengths : List ℕ) : List ℤ :=
  lengths.zipIdx.flatMap fun entry => replicate entry.1 (entry.2 : ℤ)

/-- `input_starts[segment_ids] + torch.arange(total) - output_starts[segment_ids]` -/
def segmentPositions (inputStarts : List ℤ) (lengths : List ℕ) (total : ℕ) : Option (List ℤ) := do
  let segmentIds := repeatInterleave lengths
  let first ← indexSelect inputStarts segmentIds
  let last ← indexSelect (exclusive lengths) segmentIds
  if segmentIds.length = total then
    some (zipWith (· - ·) (zipWith (· + ·) first (arange total)) last)
  else none

/-- Where consecutive segments start, from a position on. -/
def running (position : ℤ) : List ℕ → List ℤ
  | [] => []
  | length :: lengths => position :: running (position + length) lengths

def spread (values : List ℤ) (lengths : List ℕ) : List ℤ :=
  (values.zip lengths).flatMap fun entry => replicate entry.2 entry.1

def positions (start : ℤ) (length : ℕ) : List ℤ := (range length).map fun (place : ℕ) => start + place

theorem cumsumFrom_getD (values : List ℕ) (total : ℤ) {count : ℕ} (within : count ≤ values.length) :
    (total :: cumsumFrom total values).getD count 0 = total + ((values.take count).sum : ℕ) := by
  induction values generalizing total count with
  | nil =>
    rw [Nat.le_zero.mp within]
    exact (add_zero total).symm
  | cons value values known =>
    cases count with
    | zero => exact (add_zero total).symm
    | succ count =>
      have rest := known (total + value) (Nat.le_of_succ_le_succ within)
      rw [take_succ_cons, sum_cons, Nat.cast_add, ← add_assoc]
      exact rest

theorem positions_append (position : ℤ) (one two : ℕ) :
    positions position (one + two) = positions position one ++ positions (position + one) two := by
  unfold positions
  rw [range_add, map_append, map_map]
  refine congrArg _ (map_congr_left fun place _ => ?_)
  simp only [Function.comp, Nat.cast_add, add_assoc]

theorem exclusive_eq : exclusive lengths = running 0 lengths := by
  have shifted : ∀ (lengths : List ℕ) (position : ℤ),
      zipWith (fun (total : ℤ) (length : ℕ) => total - length) (cumsumFrom position lengths) lengths
        = running position lengths := by
    intro lengths
    induction lengths with
    | nil => exact fun position => rfl
    | cons length lengths known =>
      intro position
      unfold cumsumFrom running
      rw [zipWith_cons_cons, add_sub_cancel_right, known]
  exact shifted lengths 0

theorem length_running (position : ℤ) (lengths : List ℕ) : (running position lengths).length = lengths.length := by
  induction lengths generalizing position with
  | nil => rfl
  | cons length lengths known =>
    unfold running
    rw [length_cons, length_cons, known]

theorem indexSelect_append {table : List Item} {first second : List ℤ} {one two : List Item}
    (here : indexSelect table first = some one) (there : indexSelect table second = some two) :
    indexSelect table (first ++ second) = some (one ++ two) := by
  rw [indexSelect_iff] at *
  exact rel_append here there

variable {lengths : List ℕ}

/-- What is selected by the ids of segments. -/
theorem indexSelect_repeat {values : List ℤ} (sized : values.length = lengths.length) :
    indexSelect values (repeatInterleave lengths) = some (spread values lengths) := by
  have shifted : ∀ (lengths : List ℕ) (before values : List ℤ), values.length = lengths.length →
      indexSelect (before ++ values) ((lengths.zipIdx before.length).flatMap fun entry =>
        replicate entry.1 (entry.2 : ℤ)) = some (spread values lengths) := by
    intro lengths
    induction lengths with intro before values sized
    | nil =>
      rw [length_eq_zero_iff.mp sized]
      rfl
    | cons length lengths known =>
      obtain ⟨value, values, rfl⟩ := exists_cons_of_length_eq_add_one sized
      have rest := known (before ++ [value]) values (Nat.succ.inj sized)
      rw [append_assoc, singleton_append, length_append, length_singleton] at rest
      refine indexSelect_append ?_ rest
      have found : rowAt (before ++ value :: values) (before.length : ℤ) = some value := by
        refine rowAt_some ?_
        rw [getElem?_append_right le_rfl, Nat.sub_self]
        rfl
      have constant : indexSelect (before ++ value :: values) (replicate length (before.length : ℤ))
          = some ((replicate length (before.length : ℤ)).map fun _ => value) :=
        indexSelect_each fun id mem => by
          rw [eq_of_mem_replicate mem]
          exact found
      rw [map_replicate] at constant
      exact constant
  exact shifted lengths [] values sized

theorem spread_cons (value : ℤ) (values : List ℤ) (length : ℕ) (lengths : List ℕ) :
    spread (value :: values) (length :: lengths) = replicate length value ++ spread values lengths := rfl

theorem length_spread {values : List ℤ} (sized : values.length = lengths.length) :
    (spread values lengths).length = lengths.sum := by
  induction lengths generalizing values with
  | nil =>
    rw [length_eq_zero_iff.mp sized]
    rfl
  | cons length lengths known =>
    obtain ⟨value, values, rfl⟩ := exists_cons_of_length_eq_add_one sized
    rw [spread_cons, length_append, length_replicate, known (Nat.succ.inj sized), sum_cons]

/-- **The index arithmetic gives the positions that each segment has.** -/
theorem segmentPositions_eq {inputStarts : List ℤ} (sized : inputStarts.length = lengths.length) :
    segmentPositions inputStarts lengths lengths.sum
      = some ((inputStarts.zip lengths).flatMap fun entry => positions entry.1 entry.2) := by
  have shifted : ∀ (lengths : List ℕ) (inputStarts : List ℤ) (position : ℤ), inputStarts.length = lengths.length →
      zipWith (· - ·) (zipWith (· + ·) (spread inputStarts lengths) (positions position lengths.sum))
        (spread (running position lengths) lengths)
        = (inputStarts.zip lengths).flatMap fun entry => positions entry.1 entry.2 := by
    intro lengths
    induction lengths with intro inputStarts position sized
    | nil =>
      rw [length_eq_zero_iff.mp sized]
      rfl
    | cons length lengths known =>
      obtain ⟨start, starts, rfl⟩ := exists_cons_of_length_eq_add_one sized
      have rest := known starts (position + length) (Nat.succ.inj sized)
      unfold running
      rw [spread_cons, spread_cons, sum_cons, positions_append, zipWith_append, zipWith_append, rest,
        zip_cons_cons, flatMap_cons]
      · refine congrArg (· ++ _) (ext_getElem ?_ fun place _ _ => ?_)
        · simp [positions]
        · simp [positions, add_left_comm start position]
      all_goals simp [positions]
  have firsts := indexSelect_repeat sized
  have lasts := indexSelect_repeat (length_running 0 lengths)
  rw [← exclusive_eq] at lasts
  have total : (repeatInterleave lengths).length = lengths.sum := by
    rw [← indexSelect_length firsts, length_spread sized]
  refine Option.bind_eq_some_iff.mpr ⟨_, firsts, Option.bind_eq_some_iff.mpr ⟨_, lasts, ?_⟩⟩
  rw [if_pos total, exclusive_eq]
  refine congrArg some (Eq.trans ?_ (shifted lengths inputStarts 0 sized))
  unfold positions arange
  simp only [zero_add]

/-! ### Grids and repeated rows -/

theorem range_mul (outer inner : ℕ) (value : ℕ → List Item) : (range (outer * inner)).flatMap value
      = (range outer).flatMap fun row => (range inner).flatMap fun column => value (row * inner + column) := by
  induction outer with
  | zero => rw [Nat.zero_mul]; rfl
  | succ outer known =>
    rw [Nat.succ_mul, range_add, flatMap_append, known, range_succ, flatMap_append,
      flatMap_singleton, flatMap_map]

theorem range_grid (value : ℕ → ℕ → Item) (outer inner : ℕ) :
    ((range outer).flatMap fun row => (range inner).map (value row))
      = (range (outer * inner)).map fun place => value (place / inner) (place % inner) := by
  rw [map_eq_flatMap, range_mul]
  refine flatMap_congr fun row _ => ?_
  rw [← map_eq_flatMap]
  refine map_congr_left fun column mem => ?_
  have small := mem_range.mp mem
  rw [grid_div small, grid_mod small]

theorem zipIdx_range (count : ℕ) : (range count).zipIdx = (range count).map fun place => (place, place) := by
  rw [zipIdx_eq_zip_range', length_range, ← range_eq_range']
  conv_lhs => rw [← map_id (range count)]
  exact zip_map'

theorem rowAt_cons (item : Item) (items : List Item) (id : ℤ) :
    rowAt (item :: items) id = if id = 0 then some item else rowAt items (id - 1) := by
  unfold rowAt
  by_cases first : id = 0
  · subst first
    rfl
  · rw [if_neg first]
    by_cases positive : 0 ≤ id
    · rw [if_pos positive, if_pos (by omega)]
      obtain ⟨place, rfl⟩ : ∃ place : ℕ, id = (place + 1 : ℕ) := ⟨(id - 1).toNat, by omega⟩
      rw [Int.toNat_natCast, getElem?_cons_succ]
      congr 1
      omega
    · rw [if_neg positive, if_neg (by omega)]

theorem rowAt_append (one two : List Item) (id : ℤ) :
    rowAt (one ++ two) id = if id < one.length then rowAt one id else rowAt two (id - one.length) := by
  induction one generalizing id with
  | nil =>
    rw [nil_append]
    by_cases negative : id < 0
    · rw [if_pos (by simpa using negative)]
      unfold rowAt
      rw [if_neg (by omega), if_neg (by omega)]
    · rw [if_neg (by simpa using negative), length_nil, Nat.cast_zero, sub_zero]
  | cons item one known =>
    rw [cons_append, rowAt_cons, known, rowAt_cons, length_cons]
    push_cast
    split_ifs <;> first | rfl | omega | (congr 1; omega)

theorem rowAt_repeated {times : ℕ} (positive : 0 < times) (items : List Item) (id : ℤ) :
    rowAt (items.flatMap (replicate times)) id = rowAt items (id / times) := by
  have large : (0 : ℤ) < times := Int.ofNat_lt.mpr positive
  induction items generalizing id with
  | nil =>
    unfold rowAt
    simp
  | cons item items known =>
    rw [flatMap_cons, rowAt_append, rowAt_cons, known, length_replicate]
    rw [Int.sub_ediv_of_dvd _ (dvd_refl _), Int.ediv_self large.ne']
    have first : id / times = 0 ↔ 0 ≤ id ∧ id < times := by
      rw [ediv_eq_iff large, zero_mul, zero_add, one_mul]
    by_cases negative : id < 0
    · have before : id / times < 0 := Int.ediv_lt_of_lt_mul large (by rw [zero_mul]; exact negative)
      rw [if_pos (negative.trans large), if_neg before.ne]
      unfold rowAt
      rw [if_neg (by omega), if_neg (by omega)]
    · by_cases inside : id < times
      · rw [if_pos inside, if_pos (first.mpr ⟨by omega, inside⟩)]
        unfold rowAt
        rw [if_pos (by omega), getElem?_replicate_of_lt (by omega)]
      · rw [if_neg inside, if_neg fun zero => inside (first.mp zero).2]

/-! ### Segments in another order -/

def located (position : ℤ) : List (List Item) → List (ℤ × List Item)
  | [] => []
  | segment :: segments => (position, segment) :: located (position + segment.length) segments

variable {segments : List (List Item)} {entries : List (ℤ × List Item)} {position : ℤ} {table : List Item}

theorem located_segments : (located position segments).map Prod.snd = segments := by
  induction segments generalizing position with
  | nil => rfl
  | cons segment segments known =>
    unfold located
    rw [map_cons, known]

theorem located_starts : (located position segments).map Prod.fst = running position (segments.map length) := by
  induction segments generalizing position with
  | nil => rfl
  | cons segment segments known =>
    unfold located
    rw [map_cons, known]
    rfl

theorem located_positions : ((located position segments).flatMap fun entry => positions entry.1 entry.2.length)
    = positions position segments.flatten.length := by
  induction segments generalizing position with
  | nil => rfl
  | cons segment segments known =>
    unfold located
    rw [flatMap_cons, known, flatten_cons, length_append, positions_append]

theorem located_select {entry : ℤ × List Item} (before : List Item)
    (mem : entry ∈ located before.length segments) :
    indexSelect (before ++ segments.flatten) (positions entry.1 entry.2.length) = some entry.2 := by
  induction segments generalizing before with
  | nil => cases mem
  | cons segment segments known =>
    rcases mem_cons.mp mem with rfl | later
    · rw [indexSelect_iff]
      refine forall₂_iff_get.mpr ⟨by simp [positions], fun place inside _ => ?_⟩
      have short : place < segment.length := by simpa [positions] using inside
      have here : (positions before.length segment.length).get ⟨place, inside⟩ = ((before.length + place : ℕ) : ℤ) := by
        simp [positions]
      rw [here]
      refine rowAt_some ?_
      rw [getElem?_append_right (Nat.le_add_right _ _), Nat.add_sub_cancel_left, flatten_cons,
        getElem?_append_left short]
      exact getElem?_eq_getElem short
    · have rest := known (before ++ segment) (by rw [length_append, Nat.cast_add]; exact later)
      rw [append_assoc] at rest
      exact rest

/-- **Segments in any order are selected by their positions.** -/
theorem select_located (found : ∀ entry ∈ entries, indexSelect table (positions entry.1 entry.2.length) = some entry.2) :
    indexSelect table (entries.flatMap fun entry => positions entry.1 entry.2.length)
      = some (entries.flatMap Prod.snd) := by
  induction entries with
  | nil => rfl
  | cons entry entries known =>
    obtain ⟨here, later⟩ := forall_mem_cons.mp found
    exact indexSelect_append here (known later)

/-! ### Matrices -/

/-- `Tensor.view` as rows of a width. -/
def view (rows width : ℕ) (items : List Item) : List (List Item) := (range rows).map (slice width items)

/-- `Tensor.t()` of a matrix of a width. -/
def columns (width : ℕ) (matrix : List (List Item)) : List (List Item) :=
  (range width).map fun column => matrix.filterMap (·[column]?)

variable {rows width : ℕ} {matrix : List (List Item)}

theorem view_map (change : Item → Other) (items : List Item) :
    view rows width (items.map change) = (view rows width items).map (map change) := by
  unfold view slice
  rw [map_map]
  exact map_congr_left fun row _ => by simp only [Function.comp, map_drop, map_take]

theorem columns_map (change : Item → Other) (matrix : List (List Item)) :
    columns width (matrix.map (map change)) = (columns width matrix).map (map change) := by
  unfold columns
  rw [map_map]
  refine map_congr_left fun column _ => ?_
  rw [filterMap_map, Function.comp, map_filterMap]
  exact filterMap_congr fun row _ => getElem?_map

theorem view_flatten (each : ∀ row ∈ matrix, row.length = width) : view matrix.length width matrix.flatten = matrix := by
  induction matrix with
  | nil => rfl
  | cons row matrix known =>
    obtain ⟨here, later⟩ := forall_mem_cons.mp each
    unfold view at *
    rw [length_cons, range_succ_eq_map, map_cons, map_map, flatten_cons]
    refine congrArg₂ _ ?_ ((map_congr_left fun index _ => ?_).trans (known later))
    · rw [slice, Nat.zero_mul, drop_zero, ← here, take_left]
    · show slice width (row ++ matrix.flatten) (index + 1) = _
      rw [slice, slice, Nat.succ_mul, Nat.add_comm, ← drop_drop, drop_left' here]

theorem columns_perm (each : ∀ row ∈ matrix, row.length = width) : (columns width matrix).flatten.Perm matrix.flatten := by
  have swapped := flatMap_comm (range width) matrix fun column row => row[column]?.toList
  have cells : (columns width matrix).flatten = (range width).flatMap fun column => matrix.flatMap fun row => row[column]?.toList := by
    exact flatMap_congr fun column _ => filterMap_eq_flatMap_toList _ _
  rw [cells]
  refine swapped.trans (List.Perm.of_eq ?_)
  rw [← flatMap_id]
  refine flatMap_congr fun row mem => ?_
  rw [← each row mem]
  have cells : ∀ row : List Item, ((range row.length).flatMap fun column => row[column]?.toList) = row := by
    intro row
    induction row with
    | nil => rfl
    | cons item row known =>
      rw [length_cons, range_succ_eq_map, flatMap_cons, flatMap_map]
      exact congrArg (item :: ·) known
  exact cells row

theorem column_sublist (column : ℕ) (matrix : List (List Item)) :
    (matrix.filterMap (·[column]?)).Sublist matrix.flatten := by
  induction matrix with
  | nil => exact List.Sublist.refl _
  | cons row matrix known =>
    rw [flatten_cons, filterMap_cons]
    rcases found : row[column]? with _ | item
    · exact known.trans (sublist_append_right row _)
    · have single : [item].Sublist row := singleton_sublist.mpr (mem_of_getElem? found)
      exact single.append known

def transposed (width : ℕ) (counts : List (List ℕ)) : List ℤ :=
  ((columns width (view counts.length width (exclusive counts.flatten))).flatten.zip
    (columns width counts).flatten).flatMap fun entry => positions entry.1 entry.2

variable {cells : List (List (List Item))}

/-- The cells with the positions where they start. -/
def locatedCells (width : ℕ) (cells : List (List (List Item))) : List (List (ℤ × List Item)) :=
  view cells.length width (located 0 cells.flatten)

theorem sizes_flatten : (cells.map (map length)).flatten = cells.flatten.map length :=
  map_flatten.symm

theorem locatedCells_segments (each : ∀ row ∈ cells, row.length = width) :
    (locatedCells width cells).map (map Prod.snd) = cells := by
  unfold locatedCells
  rw [← view_map, located_segments, view_flatten each]

theorem locatedCells_starts : (locatedCells width cells).map (map Prod.fst)
    = view cells.length width (exclusive (cells.map (map length)).flatten) := by
  unfold locatedCells
  rw [← view_map, located_starts, exclusive_eq, sizes_flatten]

section

variable (each : ∀ row ∈ cells, row.length = width)
include each

theorem transposed_located : transposed width (cells.map (map length))
      = (columns width (locatedCells width cells)).flatten.flatMap fun entry => positions entry.1 entry.2.length := by
  have lengths : (columns width (cells.map (map length))).flatten
      = (columns width (locatedCells width cells)).flatten.map fun entry => entry.2.length := by
    conv_lhs => rw [← locatedCells_segments each]
    rw [columns_map, columns_map, ← map_flatten, ← map_flatten, map_map]
    rfl
  unfold transposed
  rw [lengths, length_map, ← locatedCells_starts, columns_map, ← map_flatten, zip_map', flatMap_map]

theorem locatedCells_each : ∀ row ∈ locatedCells width cells, row.length = width := by
  have same := locatedCells_segments each
  intro row mem
  have there : row.map Prod.snd ∈ cells := by
    rw [← same]
    exact mem_map_of_mem mem
  rw [← each _ there, length_map]

theorem locatedCells_flatten : (locatedCells width cells).flatten = located 0 cells.flatten := by
  have sized : (located 0 cells.flatten).length = cells.length * width := by
    rw [← length_flatten_each each, ← length_map Prod.snd, located_segments]
  unfold locatedCells view
  rw [← flatMap_def, flatMap_slice, ← sized, take_length]

theorem locatedCells_found : ∀ entry ∈ (columns width (locatedCells width cells)).flatten,
      indexSelect cells.flatten.flatten (positions entry.1 entry.2.length) = some entry.2 := by
  intro entry mem
  have there := (columns_perm (locatedCells_each each)).mem_iff.mp mem
  rw [locatedCells_flatten each] at there
  exact located_select [] there

/-- **The segments of a matrix are put in the order of its columns.** -/
theorem transposed_select : indexSelect cells.flatten.flatten (transposed width (cells.map (map length)))
      = some (columns width cells).flatten.flatten := by
  rw [transposed_located each, select_located (locatedCells_found each)]
  conv_rhs => rw [← locatedCells_segments each, columns_map, ← map_flatten]
  rfl

/-- **The positions in the order of the columns are those of the list.** -/
theorem transposed_perm :
    (transposed width (cells.map (map length))).Perm (arange cells.flatten.flatten.length) := by
  rw [transposed_located each]
  refine ((columns_perm (locatedCells_each each)).flatMap_right _).trans (List.Perm.of_eq ?_)
  rw [locatedCells_flatten each, located_positions]
  unfold positions arange
  simp only [zero_add]

/-- **The positions of a column increase.** -/
theorem transposed_increasing : ∀ run ∈ pieces ((columns width (cells.map (map length))).map sum)
      (transposed width (cells.map (map length))), run.Pairwise (· < ·) := by
  have runs : (columns width (cells.map (map length))).map sum
      = ((columns width (locatedCells width cells)).map fun column =>
          column.flatMap fun entry => positions entry.1 entry.2.length).map length := by
    conv_lhs => rw [← locatedCells_segments each]
    rw [columns_map, columns_map, map_map, map_map, map_map]
    refine map_congr_left fun column _ => ?_
    simp only [Function.comp, length_flatMap, map_map, positions, length_map, length_range]
    rfl
  have whole : transposed width (cells.map (map length))
      = ((columns width (locatedCells width cells)).map fun column =>
          column.flatMap fun entry => positions entry.1 entry.2.length).flatten := by
    rw [transposed_located each, ← flatMap_def, ← flatMap_id, flatMap_assoc]
    rfl
  rw [runs, whole, pieces_flatten]
  refine forall_mem_map.mpr fun column mem => ?_
  obtain ⟨index, -, rfl⟩ := mem_map.mp mem
  have inside := (column_sublist index (locatedCells width cells)).flatMap fun entry => positions entry.1 entry.2.length
  rw [locatedCells_flatten each, located_positions] at inside
  refine List.Pairwise.sublist inside (pairwise_map.mpr (pairwise_lt_range.imp fun {one two} less => ?_))
  exact add_lt_add_right (Int.ofNat_lt.mpr less) 0

end

end TinyDSV41.Lib
