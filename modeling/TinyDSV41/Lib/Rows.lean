/-
**Tables of rows that are read and written at lists of indices.**

* `indexSelect`, `indexCopy` — the rows under indices are read, or replaced.
* `rowAt_indexCopy` — what a row is afterwards, if no index is written twice.
* `lookup_indexSelect` — what was read, by index.
* `rowAt_ext` — a table is what its rows are.
* `unique`, `split` — indices without repetition, and in chunks.
-/

import Mathlib.Data.List.Dedup
import Mathlib.Data.List.Sort
import Mathlib.Data.List.Infix

namespace TinyDSV41.Lib

open List List.Forall₂

variable {Row : Type}

def rowAt (table : List Row) (id : ℤ) : Option Row := if 0 ≤ id then table[id.toNat]? else none

/-- `Tensor.index_select` -/
def indexSelect (table : List Row) (ids : List ℤ) : Option (List Row) := ids.mapM (rowAt table)

def putRow (table : List Row) (id : ℤ) (row : Row) : Option (List Row) :=
  if 0 ≤ id ∧ id < table.length then some (table.set id.toNat row) else none

/-- `Tensor.index_copy_` -/
def indexCopy (table : List Row) : List (ℤ × Row) → Option (List Row)
  | [] => some table
  | edit :: rest => (putRow table edit.1 edit.2).bind (indexCopy · rest)

def Within (ids : List ℤ) (length : ℕ) : Prop := ∀ id ∈ ids, 0 ≤ id ∧ id < length

variable {table other after values : List Row} {id other' : ℤ} {ids : List ℤ} {row : Row}
  {edits more : List (ℤ × Row)}

theorem rowAt_isSome : (rowAt table id).isSome = true ↔ 0 ≤ id ∧ id < table.length := by
  unfold rowAt
  split_ifs with positive
  · rw [Option.isSome_iff_ne_none, Ne, getElem?_eq_none_iff]
    omega
  · simp [positive]

theorem rowAt_ext (same : ∀ id, rowAt table id = rowAt other id) : table = other := by
  refine ext_getElem? fun index => ?_
  have here := same index
  exact here

theorem rowAt_mem (found : rowAt table id = some row) : row ∈ table := by
  unfold rowAt at found
  split_ifs at found
  exact mem_of_getElem? found

theorem exists_rowAt (mem : row ∈ table) : ∃ id, rowAt table id = some row := by
  obtain ⟨index, found⟩ := getElem?_of_mem mem
  refine ⟨index, ?_⟩
  exact found

/-! ### Writing -/

theorem putRow_length (put : putRow table id row = some after) : after.length = table.length := by
  unfold putRow at put
  split_ifs at put
  cases put
  exact length_set

theorem rowAt_putRow (put : putRow table id row = some after) :
    rowAt after other' = if other' = id then some row else rowAt table other' := by
  unfold putRow at put
  split_ifs at put with inside
  cases put
  unfold rowAt
  by_cases same : other' = id
  · rw [if_pos same, same, if_pos inside.1, getElem?_set_self (by omega)]
  · split_ifs with positive
    · rw [getElem?_set_ne (by omega)]
    · rfl

theorem indexCopy_some (within : Within (edits.map Prod.fst) table.length) :
    ∃ after, indexCopy table edits = some after := by
  induction edits generalizing table with
  | nil => exact ⟨table, rfl⟩
  | cons edit rest known =>
    obtain ⟨here, later⟩ := forall_mem_cons.mp within
    have put : putRow table edit.1 edit.2 = some (table.set edit.1.toNat edit.2) := if_pos here
    have within' : Within (rest.map Prod.fst) (table.set edit.1.toNat edit.2).length := by
      rw [length_set]
      exact later
    obtain ⟨after, copied⟩ := known within'
    refine ⟨after, ?_⟩
    unfold indexCopy
    rw [put]
    exact copied

theorem indexCopy_cons {edit : ℤ × Row} (copied : indexCopy table (edit :: edits) = some after) :
    ∃ middle, putRow table edit.1 edit.2 = some middle ∧ indexCopy middle edits = some after := by
  exact Option.bind_eq_some_iff.mp copied

theorem indexCopy_length (copied : indexCopy table edits = some after) : after.length = table.length := by
  induction edits generalizing table with
  | nil =>
    cases copied
    rfl
  | cons edit rest known =>
    obtain ⟨middle, put, later⟩ := indexCopy_cons copied
    rw [known later, putRow_length put]

theorem rowAt_indexCopy (distinct : (edits.map Prod.fst).Nodup)
    (copied : indexCopy table edits = some after) :
    rowAt after id = (edits.lookup id).or (rowAt table id) := by
  induction edits generalizing table with
  | nil =>
    cases copied
    rfl
  | cons edit rest known =>
    obtain ⟨middle, put, later⟩ := indexCopy_cons copied
    obtain ⟨fresh, others⟩ := nodup_cons.mp distinct
    rw [known others later, rowAt_putRow put, lookup_cons]
    by_cases same : id = edit.1
    · subst same
      have absent : rest.lookup edit.1 = none := by
        rw [lookup_eq_none_iff]
        intro entry mem
        rw [bne_iff_ne]
        rintro same
        exact fresh (by rw [same]; exact mem_map_of_mem mem)
      rw [absent, if_pos rfl, beq_self_eq_true]
      rfl
    · rw [if_neg same, beq_false_of_ne same]

/-! ### Reading -/

variable {items : List Item}

theorem mapM_eq_some {read : Item → Option Value} {values : List Value} :
    items.mapM read = some values ↔ List.Forall₂ (fun item value => read item = some value) items values := by
  induction items generalizing values with
  | nil =>
    rw [mapM_nil, forall₂_nil_left_iff]
    exact ⟨fun same => (Option.some.inj same).symm, fun same => by rw [same]; rfl⟩
  | cons item items known =>
    rw [mapM_cons]
    constructor
    · intro reads
      obtain ⟨value, found, later⟩ := Option.bind_eq_some_iff.mp reads
      obtain ⟨others, rest, same⟩ := Option.bind_eq_some_iff.mp later
      cases same
      exact cons found (known.mp rest)
    · intro reads
      obtain ⟨value, others, found, later, rfl⟩ := forall₂_cons_left_iff.mp reads
      rw [found, known.mpr later]
      rfl

variable {Other : Type}

theorem mapM_map {read : Item → Option Value} {change : Value → Other} :
    (items.mapM fun item => (read item).map change) = (items.mapM read).map (map change) := by
  induction items with
  | nil => rfl
  | cons item items known =>
    rw [mapM_cons, mapM_cons, known]
    cases read item with
    | none => rfl
    | some value =>
      cases items.mapM read with
      | none | some => rfl

theorem mapM_isSome {read : Item → Option Value}
    (each : ∀ item ∈ items, (read item).isSome = true) : ∃ values, items.mapM read = some values := by
  induction items with
  | nil => exact ⟨[], mapM_eq_some.mpr .nil⟩
  | cons item items known =>
    obtain ⟨here, later⟩ := forall_mem_cons.mp each
    obtain ⟨value, found⟩ := Option.isSome_iff_exists.mp here
    obtain ⟨values, rest⟩ := known later
    exact ⟨value :: values, mapM_eq_some.mpr (.cons found (mapM_eq_some.mp rest))⟩

theorem indexSelect_cons : indexSelect table (id :: ids)
    = (rowAt table id).bind fun row => (indexSelect table ids).map (row :: ·) := by
  unfold indexSelect
  rw [mapM_cons]
  cases rowAt table id with
  | none => rfl
  | some row =>
    cases ids.mapM (rowAt table) with
    | none | some => rfl

theorem indexSelect_iff : indexSelect table ids = some values ↔
    List.Forall₂ (fun id row => rowAt table id = some row) ids values := mapM_eq_some

theorem indexSelect_length (selected : indexSelect table ids = some values) :
    values.length = ids.length := (indexSelect_iff.mp selected).length_eq.symm

theorem indexSelect_each {value : ℤ → Row} (each : ∀ id ∈ ids, rowAt table id = some (value id)) :
    indexSelect table ids = some (ids.map value) := by
  rw [indexSelect_iff, forall₂_map_right_iff]
  exact forall₂_same.mpr each

theorem mem_indexSelect (selected : indexSelect table ids = some values) (mem : row ∈ values) :
    ∃ id ∈ ids, rowAt table id = some row := by
  have reads := indexSelect_iff.mp selected
  clear selected
  induction reads with
  | nil => cases mem
  | cons first _ known =>
    rcases mem_cons.mp mem with rfl | mem
    · exact ⟨_, mem_cons_self, first⟩
    · obtain ⟨id, inside, found⟩ := known mem
      exact ⟨id, mem_cons_of_mem _ inside, found⟩

theorem indexSelect_some (within : Within ids table.length) :
    ∃ values, indexSelect table ids = some values := by
  induction ids with
  | nil => exact ⟨[], rfl⟩
  | cons id rest known =>
    obtain ⟨here, later⟩ := forall_mem_cons.mp within
    obtain ⟨row, found⟩ := Option.isSome_iff_exists.mp (rowAt_isSome.mpr here)
    obtain ⟨values, selected⟩ := known later
    exact ⟨row :: values, by rw [indexSelect_cons, found, selected]; rfl⟩

theorem lookup_indexSelect (selected : indexSelect table ids = some values) :
    (ids.zip values).lookup id = if id ∈ ids then rowAt table id else none := by
  have reads := indexSelect_iff.mp selected
  clear selected
  induction reads with
  | nil => rfl
  | @cons first row rest others found _ known =>
    rw [zip_cons_cons, lookup_cons, known]
    by_cases same : id = first
    · subst same
      rw [beq_self_eq_true, if_pos mem_cons_self, found]
    · rw [beq_false_of_ne same]
      simp [same]

theorem mem_of_lookup (found : edits.lookup id = some row) : (id, row) ∈ edits := by
  induction edits with
  | nil => cases found
  | cons edit rest known =>
    rw [lookup_cons] at found
    by_cases same : id = edit.1
    · subst same
      rw [beq_self_eq_true] at found
      cases found
      exact mem_cons_self
    · rw [beq_false_of_ne same] at found
      exact mem_cons_of_mem _ (known found)

theorem forall₂_lookup_zip (length : ids.length = values.length) (distinct : ids.Nodup) :
    List.Forall₂ (fun id row => (ids.zip values).lookup id = some row) ids values := by
  induction ids generalizing values with
  | nil =>
    obtain rfl := length_eq_zero_iff.mp length.symm
    exact nil
  | cons id rest known =>
    obtain ⟨row, others, rfl⟩ := exists_cons_of_length_eq_add_one length.symm
    obtain ⟨fresh, later⟩ := nodup_cons.mp distinct
    have tail := known (Nat.succ.inj length) later
    refine cons ?_ (forall₂_iff_get.mpr ⟨Nat.succ.inj length, ?_⟩)
    · rw [zip_cons_cons, lookup_cons_self]
    · intro index low high
      have here := (forall₂_iff_get.mp tail).2 index low high
      have differs : rest.get ⟨index, low⟩ ≠ id := fun same =>
        fresh (by rw [← same]; exact get_mem rest ⟨index, low⟩)
      rw [zip_cons_cons, lookup_cons, beq_false_of_ne differs]
      exact here

theorem keys_zip (length : values.length = ids.length) : (ids.zip values).map Prod.fst = ids :=
  map_fst_zip (by omega)

/-! ### Indices -/

/-- `unique(sorted=True)` -/
def unique (ids : List ℤ) : List ℤ := ids.dedup.insertionSort (· ≤ ·)

def splitRest (size : ℕ) : ℕ → List Row → List (List Row)
  | 0, rows => [rows]
  | fuel + 1, rows =>
    if size < rows.length ∧ 0 < size then rows.take size :: splitRest size fuel (rows.drop size)
    else [rows]

/-- `Tensor.split` -/
def split (size : ℕ) (rows : List Row) : List (List Row) := splitRest size rows.length rows

theorem mem_unique {id : ℤ} : id ∈ unique ids ↔ id ∈ ids := by
  unfold unique
  rw [(perm_insertionSort (· ≤ ·) ids.dedup).mem_iff, mem_dedup]

theorem unique_increasing : (unique ids).Pairwise (· < ·) := by
  have sorted : (unique ids).Pairwise (· ≤ ·) := pairwise_insertionSort (· ≤ ·) ids.dedup
  have distinct : (unique ids).Nodup :=
    (perm_insertionSort (· ≤ ·) ids.dedup).nodup_iff.mpr ids.nodup_dedup
  exact (sorted.and distinct).imp fun both => lt_of_le_of_ne both.1 both.2

theorem splitRest_flatten {size fuel : ℕ} : (splitRest size fuel table).flatten = table := by
  induction fuel generalizing table with
  | zero => exact append_nil table
  | succ fuel known =>
    unfold splitRest
    split_ifs
    · rw [flatten_cons, known]
      exact take_append_drop size table
    · exact append_nil table

theorem split_flatten (size : ℕ) (table : List Row) : (split size table).flatten = table := splitRest_flatten

/-- `torch.arange` -/
def arange (length : ℕ) : List ℤ := (range length).map fun (index : ℕ) => (index : ℤ)

/-- `return_inverse=True`: where each value is among the values without repetition. -/
def inverseOf (ids : List ℤ) : List ℤ := ids.map fun id => ((unique ids).idxOf id : ℤ)

/-- `scatter_reduce_(…, reduce="amax")` -/
def scatterMax (target : List ℤ) : List (ℤ × ℤ) → Option (List ℤ)
  | [] => some target
  | (index, value) :: rest =>
    match rowAt target index with
    | none => none
    | some old =>
      match putRow target index (max old value) with
      | none => none
      | some target => scatterMax target rest

theorem rowAt_some {index : ℕ} (found : table[index]? = some row) : rowAt table index = some row := by
  exact found

theorem rowAt_index (found : rowAt table id = some row) : ∃ index : ℕ, id = index ∧ table[index]? = some row := by
  unfold rowAt at found
  split_ifs at found with positive
  exact ⟨id.toNat, (Int.toNat_of_nonneg positive).symm, found⟩

theorem rowAt_within (found : rowAt table id = some row) : 0 ≤ id ∧ id < table.length :=
  rowAt_isSome.mp (by rw [found]; rfl)

theorem exists_row (inside : 0 ≤ id ∧ id < table.length) : ∃ row, rowAt table id = some row :=
  Option.isSome_iff_exists.mp (rowAt_isSome.mpr inside)

variable {length : ℕ}

theorem arange_length : (arange length).length = length := by
  unfold arange
  rw [length_map, length_range]

theorem mem_arange : id ∈ arange length ↔ 0 ≤ id ∧ id < length := by
  unfold arange
  rw [mem_map]
  constructor
  · rintro ⟨index, mem, rfl⟩
    exact ⟨Int.natCast_nonneg index, Int.ofNat_lt.mpr (mem_range.mp mem)⟩
  · rintro ⟨positive, below⟩
    exact ⟨id.toNat, mem_range.mpr (by omega), Int.toNat_of_nonneg positive⟩

theorem arange_nodup : (arange length).Nodup :=
  nodup_range.map fun _ _ => Int.ofNat.inj

theorem mem_arange_zip (sized : table.length = length) :
    (id, row) ∈ (arange length).zip table ↔ rowAt table id = some row := by
  rw [mem_iff_getElem?]
  constructor
  · rintro ⟨index, found⟩
    obtain ⟨first, second⟩ := getElem?_zip_eq_some.mp found
    unfold arange at first
    rw [getElem?_map, Option.map_eq_some_iff] at first
    obtain ⟨place, there, rfl⟩ := first
    obtain ⟨below, same⟩ := List.getElem?_eq_some_iff.mp there
    obtain rfl : index = place := getElem_range below ▸ same
    exact rowAt_some second
  · intro found
    obtain ⟨index, rfl, there⟩ := rowAt_index found
    have below : index < length := by
      rw [← sized]
      exact (List.getElem?_eq_some_iff.mp there).1
    refine ⟨index, getElem?_zip_eq_some.mpr ⟨?_, there⟩⟩
    unfold arange
    rw [getElem?_map, getElem?_range below]
    rfl

variable {others : List Other}

theorem rowAt_zip {second : Other} : rowAt (table.zip others) id = some (row, second) ↔
      rowAt table id = some row ∧ rowAt others id = some second := by
  unfold rowAt
  split_ifs
  · exact getElem?_zip_eq_some
  · exact ⟨nofun, fun wrong => (by cases wrong.1)⟩

theorem indexCopy_each {good : ℤ → Row → Prop} (each : ∀ edit ∈ edits, good edit.1 edit.2)
    (copied : indexCopy table edits = some after) (id : ℤ) :
    (id ∈ edits.map Prod.fst → ∃ row, rowAt after id = some row ∧ good id row) ∧
      (id ∉ edits.map Prod.fst → rowAt after id = rowAt table id) := by
  induction edits generalizing table with
  | nil =>
    cases copied
    exact ⟨nofun, fun _ => rfl⟩
  | cons edit rest known =>
    obtain ⟨middle, put, later⟩ := indexCopy_cons copied
    obtain ⟨first, others⟩ := forall_mem_cons.mp each
    obtain ⟨written, kept⟩ := known others later
    rw [map_cons, mem_cons, not_or]
    by_cases after_ : id ∈ rest.map Prod.fst
    · exact ⟨fun _ => written after_, fun absent => absurd after_ absent.2⟩
    · rw [kept after_, rowAt_putRow put]
      split_ifs with same
      · exact ⟨fun _ => ⟨edit.2, rfl, by rw [same]; exact first⟩, fun absent => absurd same absent.1⟩
      · exact ⟨fun mem => absurd mem (not_or.mpr ⟨same, after_⟩), fun _ => rfl⟩

theorem rowAt_map {change : Row → Other} : rowAt (table.map change) id = (rowAt table id).map change := by
  unfold rowAt
  split_ifs
  · exact getElem?_map
  · rfl

variable {relation : Row → Other → Prop}

theorem forall₂_rowAt {second : Other} (all : List.Forall₂ relation table others)
    (one : rowAt table id = some row) (two : rowAt others id = some second) : relation row second := by
  obtain ⟨index, rfl, found⟩ := rowAt_index one
  obtain ⟨place, same, found'⟩ := rowAt_index two
  obtain rfl : index = place := Int.ofNat.inj same
  obtain ⟨low, rfl⟩ := List.getElem?_eq_some_iff.mp found
  obtain ⟨high, rfl⟩ := List.getElem?_eq_some_iff.mp found'
  exact (forall₂_iff_get.mp all).2 index low high

theorem forall₂_comp {Middle : Type} {one : Row → Middle → Prop} {two : Middle → Other → Prop}
    {middle : List Middle} (first : List.Forall₂ one table middle)
    (second : List.Forall₂ two middle others) :
    List.Forall₂ (fun row other => ∃ between, one row between ∧ two between other) table others := by
  induction first generalizing others with
  | nil =>
    cases second
    exact nil
  | cons here _ known =>
    cases second with
    | cons there later => exact cons ⟨_, here, there⟩ (known later)

theorem forall₂_indexSelect {rows : List Row} {picked : List Other}
    (all : List.Forall₂ relation table others) (one : indexSelect table ids = some rows)
    (two : indexSelect others ids = some picked) :
    List.Forall₂ relation rows picked := by
  have first := indexSelect_iff.mp one
  have second := indexSelect_iff.mp two
  clear one two
  induction first generalizing picked with
  | nil =>
    cases second
    exact nil
  | cons here _ known =>
    cases second with
    | cons there later =>
      exact cons (forall₂_rowAt all here there) (known later)

theorem select_copied (sized : values.length = length)
    (copied : indexCopy table ((arange length).zip values) = some after) :
    indexSelect after (arange length) = some values := by
  have keys : ((arange length).zip values).map Prod.fst = arange length :=
    keys_zip (sized.trans arange_length.symm)
  refine indexSelect_iff.mpr ((forall₂_lookup_zip (arange_length.trans sized.symm) arange_nodup).imp ?_)
  intro id row held
  rw [rowAt_indexCopy (by rw [keys]; exact arange_nodup) copied, held, Option.some_or]

theorem inverseOf_each (ids : List ℤ) :
    List.Forall₂ (fun id place => rowAt (unique ids) place = some id) ids (inverseOf ids) := by
  refine forall₂_map_right_iff.mpr (forall₂_same.mpr fun id mem => ?_)
  have there : (unique ids).idxOf id < (unique ids).length :=
    idxOf_lt_length_of_mem (mem_unique.mpr mem)
  exact rowAt_some (List.getElem?_eq_some_iff.mpr ⟨there, getElem_idxOf there⟩)

theorem mem_inverseOf : id ∈ inverseOf ids ↔ 0 ≤ id ∧ id < (unique ids).length := by
  unfold inverseOf
  rw [mem_map]
  constructor
  · rintro ⟨value, mem, rfl⟩
    exact ⟨Int.natCast_nonneg _, Int.ofNat_lt.mpr (idxOf_lt_length_of_mem (mem_unique.mpr mem))⟩
  · intro inside
    obtain ⟨value, found⟩ := exists_row inside
    obtain ⟨index, rfl, there⟩ := rowAt_index found
    obtain ⟨below, rfl⟩ := List.getElem?_eq_some_iff.mp there
    refine ⟨_, mem_unique.mp (getElem_mem below), ?_⟩
    have distinct : (unique ids).Nodup := unique_increasing.imp ne_of_lt
    rw [distinct.idxOf_getElem]

/-- The greatest values are values, where there is one. -/
theorem scatterMax_ok (target : List ℤ) (edits : List (ℤ × ℤ)) (bound : ℤ)
    (within : Within (edits.map Prod.fst) target.length)
    (each : ∀ edit ∈ edits, 0 ≤ edit.2 ∧ edit.2 < bound)
    (below : ∀ index value, rowAt target index = some value → value < bound) :
    ∃ after, scatterMax target edits = some after ∧ after.length = target.length ∧
      ∀ index value, rowAt after index = some value → value < bound ∧
        (∀ old, rowAt target index = some old → old ≤ value) ∧
        (index ∈ edits.map Prod.fst → 0 ≤ value) := by
  induction edits generalizing target with
  | nil =>
    refine ⟨target, rfl, rfl, fun index value found => ⟨below index value found, fun old same => ?_,
      nofun⟩⟩
    rw [found] at same
    exact (Option.some.inj same).ge
  | cons edit rest known =>
    obtain ⟨here, later⟩ := forall_mem_cons.mp within
    obtain ⟨first, others⟩ := forall_mem_cons.mp each
    obtain ⟨old, found⟩ := exists_row here
    have put : putRow target edit.1 (max old edit.2)
        = some (target.set edit.1.toNat (max old edit.2)) := if_pos here
    have row : ∀ index, rowAt (target.set edit.1.toNat (max old edit.2)) index
        = if index = edit.1 then some (max old edit.2) else rowAt target index :=
      fun _ => rowAt_putRow put
    have sized := putRow_length put
    obtain ⟨after, ran, length, values⟩ := known _ (by rw [sized]; exact later) others
      fun index value there => by
        rw [row index] at there
        split_ifs at there
        · cases there
          exact max_lt (below _ _ found) first.2
        · exact below index value there
    refine ⟨after, ?_, length.trans sized, fun index value there => ?_⟩
    · unfold scatterMax
      rw [found]
      dsimp only
      rw [put]
      exact ran
    · obtain ⟨less, most, filled⟩ := values index value there
      refine ⟨less, fun old' before => ?_, fun mem => ?_⟩
      · by_cases same : index = edit.1
        · subst same
          rw [found] at before
          cases before
          exact (le_max_left _ _).trans (most _ (by rw [row, if_pos rfl]))
        · exact most old' (by rw [row, if_neg same]; exact before)
      · rcases mem_cons.mp mem with rfl | mem
        · exact first.1.trans ((le_max_right _ _).trans (most _ (by rw [row, if_pos rfl])))
        · exact filled mem

theorem splitRest_each {size fuel : ℕ} (filled : table ≠ []) (positive : 0 < size)
    (enough : table.length ≤ fuel) : ∀ chunk ∈ splitRest size fuel table, chunk ≠ [] ∧ chunk.length ≤ size := by
  induction fuel generalizing table with
  | zero => exact absurd (length_eq_zero_iff.mp (by omega)) filled
  | succ fuel known =>
    unfold splitRest
    split_ifs with more
    · refine forall_mem_cons.mpr ⟨⟨fun none_ => ?_, length_take_le _ _⟩,
        known (fun none_ => ?_) (by rw [length_drop]; omega)⟩
      · have := congrArg length none_
        rw [length_take, length_nil] at this
        omega
      · have := congrArg length none_
        rw [length_drop, length_nil] at this
        omega
    · intro chunk mem
      rw [mem_singleton.mp mem]
      exact ⟨filled, by omega⟩

theorem split_each {size : ℕ} (filled : table ≠ []) (positive : 0 < size) :
    ∀ chunk ∈ split size table, chunk ≠ [] ∧ chunk.length ≤ size :=
  splitRest_each filled positive le_rfl

end TinyDSV41.Lib
