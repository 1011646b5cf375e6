/-
**When the pieces of a tensor are accepted, and what is made of them.**

* `indexed_zipWith` — what is taken chunk by chunk is taken row by row.
* `coverFrom_iff` — the loop over sorted pieces: they divide what is left, and duplicates agree.
* `cover_iff` — the same of pieces in any order.
* `coverFrom_result` — what is kept follows each other from the first row to the last.
* `copyTensor_rows` — the rows of what is kept, one after another, are the tensor that is written.
-/

import TinyDSV41.Sft.Source

namespace TinyDSV41.Sft

open List Lib Bool

variable {Row Item : Type} {chunkBytes : ℕ} {equal : Row → Row → Bool}

/-! ### Chunks -/

variable (take : Row → Item → Other)

theorem zipWith_parts (part rest : List Row) (others : List Item) :
    zipWith take part (others.take part.length) ++ zipWith take rest (others.drop part.length)
      = zipWith take (part ++ rest) others := by
  induction part generalizing others with
  | nil => rfl
  | cons row part known =>
    cases others with
    | nil => simp
    | cons other others =>
      simp only [length_cons, take_succ_cons, drop_succ_cons, zipWith_cons_cons, cons_append, known]

theorem indexed_zipWith (others : List Item) (parts : List (List Row))
    (start : ℕ) :
    (indexed start parts).flatMap
        (fun chunk => zipWith take chunk.2.2 (rowsBetween others chunk.1 chunk.2.1))
      = zipWith take parts.flatten (others.drop start) := by
  induction parts generalizing start with
  | nil => rfl
  | cons part rest known =>
    unfold indexed
    rw [flatMap_cons, known, flatten_cons, ← zipWith_parts, drop_drop]
    unfold rowsBetween
    rw [Nat.add_sub_cancel_left]

theorem indexed_each (parts : List (List Row)) (start : ℕ) :
    ∀ chunk ∈ indexed start parts, start ≤ chunk.1 ∧ chunk.2.1 = chunk.1 + chunk.2.2.length ∧
      chunk.2.1 ≤ start + parts.flatten.length := by
  induction parts generalizing start with
  | nil => exact nofun
  | cons part rest known =>
    rw [flatten_cons, length_append]
    refine forall_mem_cons.mpr ⟨⟨le_rfl, rfl, by dsimp only; omega⟩, fun chunk mem => ?_⟩
    have := known _ chunk mem
    omega

/-- A tensor of a number of rows; a scalar is one row. -/
structure Value.Sized (value : Value Row) (length : ℕ) : Prop where
  rows : value.rows.length = length
  scalar : value.scalar = true → length = 1

variable {value : Value Row}

theorem chunks_zipWith (chunkBytes : ℕ) (take : Row → Item → Other) (others : List Item)
    (sized : value.Sized others.length) :
    (chunks chunkBytes value).flatMap
        (fun chunk => zipWith take chunk.2.2 (rowsBetween others chunk.1 chunk.2.1))
      = zipWith take value.rows others := by
  unfold chunks
  split_ifs with scalar empty
  · have whole : rowsBetween others 0 1 = others := by
      unfold rowsBetween
      rw [drop_zero, take_of_length_le (sized.scalar scalar).le]
    rw [flatMap_cons, flatMap_nil, append_nil]
    rw [whole]
  · rw [empty]
    rfl
  · rw [indexed_zipWith, split_flatten, drop_zero]

theorem chunks_each {length : ℕ} (sized : value.Sized length) : ∀ chunk ∈ chunks chunkBytes value,
      chunk.2.1 = chunk.1 + chunk.2.2.length ∧ chunk.2.1 ≤ length := by
  unfold chunks
  have rows := sized.rows
  split_ifs with scalar empty
  · have one := sized.scalar scalar
    refine forall_mem_cons.mpr ⟨⟨?_, ?_⟩, nofun⟩
    · dsimp only
      omega
    · dsimp only
      omega
  · exact nofun
  · intro chunk mem
    obtain ⟨-, stops, below⟩ := indexed_each _ _ chunk mem
    rw [split_flatten] at below
    exact ⟨stops, by omega⟩

/-! ### Equal pieces -/

def Alike (equal : Row → Row → Bool) (left right : List Row) : Prop :=
  List.Forall₂ (fun one two => equal one two = true) left right

variable {right left : List Row}

theorem equalRows_iff : equalRows equal left right = true ↔ Alike equal left right := by
  unfold equalRows Alike
  rw [and_eq_true, decide_eq_true_iff, forall₂_iff_zip]
  refine and_congr_right fun _ => ?_
  rw [all_eq_true, Prod.forall]

theorem alike_iff (same : left.length = right.length) :
    Alike equal left right ↔ (zipWith equal left right).all id = true := by
  unfold Alike
  rw [forall₂_iff_zip, ← map_uncurry_zip_eq_zipWith, all_map, all_eq_true, Prod.forall]
  exact ⟨fun all _ _ mem => all.2 mem, fun all => ⟨same, fun {_ _} mem => all _ _ mem⟩⟩

theorem equalValues_iff {left right : Value Row} {length : ℕ} (sized : left.Sized length)
    (sized' : right.Sized length) (same : left.scalar = right.scalar) :
    equalValues chunkBytes equal left right = true ↔ Alike equal left.rows right.rows := by
  have lengths : left.rows.length = right.rows.length := sized.rows.trans sized'.rows.symm
  unfold equalValues
  cases scalar : right.scalar with
  | true =>
    unfold chunks
    rw [if_pos (same.trans scalar), all_cons, all_nil, Bool.and_true, if_pos rfl, equalRows_iff]
  | false =>
    rw [alike_iff lengths, ← chunks_zipWith chunkBytes equal right.rows (sized'.rows.symm ▸ sized), all_flatMap,
      all_eq_true, all_eq_true]
    refine forall₂_congr fun chunk mem => ?_
    obtain ⟨stops, below⟩ := chunks_each sized chunk mem
    have between : chunk.2.2.length = (rowsBetween right.rows chunk.1 chunk.2.1).length := by
      unfold rowsBetween
      rw [length_take, length_drop, sized'.rows]
      omega
    rw [if_neg Bool.false_ne_true, equalRows_iff, alike_iff between]

/-! ### The check of all pieces -/

/-- A piece of a tensor: its rows are as many as its range has. -/
structure Piece.Fits (shape : List ℕ) (piece : Piece Row) : Prop where
  ordered : piece.start ≤ piece.stop
  scalar : piece.value.scalar = decide (shape = [])
  sized : piece.value.Sized (piece.stop - piece.start).toNat

/-- Two pieces that may have the same range. -/
def Same (equal : Row → Row → Bool) (name : String) (one two : Piece Row) : Prop :=
  contains name ".engram_tables." = false ∧ Alike equal one.value.rows two.value.rows

/-- Pieces with the same rows are equal. -/
def Agree (equal : Row → Row → Bool) (name : String) (pieces : List (Piece Row)) : Prop :=
  pieces.Pairwise fun one two => one.start < one.stop → one.range = two.range → Same equal name one two

/-- The pieces that are not skipped after a kept one. -/
def fresh (last : Option (Piece Row)) (pieces : List (Piece Row)) : List Span :=
  (pieces.map Piece.range).filter fun span => span.1 ≠ span.2 ∧ ∀ piece ∈ last, span ≠ piece.range

/-- What is known of the kept piece while the sorted ones after it are read. -/
structure Kept (shape : List ℕ) (cursor : ℤ) (pieces : List (Piece Row)) (last : Piece Row) : Prop where
  fits : last.Fits shape
  filled : last.start < last.stop
  cursor : last.stop = cursor
  before : ∀ piece ∈ pieces, Span.before last.range piece.range

theorem alike_same {left right : Piece Row} {shape : List ℕ} (fits : left.Fits shape) (fits' : right.Fits shape)
    (same : left.range = right.range) :
    equalValues chunkBytes equal left.value right.value = true ↔ Alike equal left.value.rows right.value.rows := by
  obtain ⟨starts, stops⟩ := Prod.ext_iff.mp same
  refine equalValues_iff fits.sized ?_ (fits.scalar.trans fits'.scalar.symm)
  rw [show left.stop = right.stop from stops, show left.start = right.start from starts]
  exact fits'.sized

theorem Alike.symm (equivalence : Equivalence fun one two => equal one two = true)
    (alike : Alike equal left right) : Alike equal right left :=
  List.Forall₂.imp (fun _ _ same => equivalence.symm same) alike.flip

theorem Alike.trans (equivalence : Equivalence fun one two => equal one two = true) {middle : List Row}
    (first : Alike equal left middle) (second : Alike equal middle right) :
    Alike equal left right :=
  (forall₂_comp first second).imp fun _ _ ⟨_, one, two⟩ => equivalence.trans one two

variable {piece : Piece Row}

theorem fresh_skip {last : Option (Piece Row)} {pieces : List (Piece Row)}
    (skipped : piece.start = piece.stop ∨ ∃ kept ∈ last, piece.range = kept.range) :
    fresh last (piece :: pieces) = fresh last pieces := by
  unfold fresh
  rw [map_cons, filter_cons_of_neg]
  rw [decide_eq_true_iff]
  rintro ⟨filled, differs⟩
  rcases skipped with empty | ⟨kept, mem, same⟩
  · exact filled empty
  · exact differs kept mem same

theorem fresh_keep {last : Option (Piece Row)} {pieces : List (Piece Row)}
    (filled : piece.start ≠ piece.stop) (differs : ∀ kept ∈ last, piece.range ≠ kept.range)
    (before : ∀ kept ∈ last, Span.before kept.range piece.range)
    (sorted : ∀ other ∈ pieces, Span.before piece.range other.range) :
    fresh last (piece :: pieces) = piece.range :: (fresh last pieces) ∧
    (fresh last pieces).filter (fun other => other ≠ piece.range) = fresh (some piece) pieces := by
  unfold fresh
  constructor
  · rw [map_cons, filter_cons_of_pos]
    exact decide_eq_true ⟨filled, differs⟩
  · rw [filter_filter]
    refine filter_congr fun span mem => ?_
    obtain ⟨other, there, rfl⟩ := mem_map.mp mem
    rw [Bool.eq_iff_iff, and_eq_true, decide_eq_true_iff, decide_eq_true_iff, decide_eq_true_iff]
    constructor
    · rintro ⟨other_, nonempty, -⟩
      exact ⟨nonempty, fun kept mem => by cases mem; exact other_⟩
    · rintro ⟨nonempty, later⟩
      refine ⟨later piece rfl, nonempty, fun kept mem same => ?_⟩
      have first := before kept mem
      have second := sorted other there
      rw [same] at second
      unfold Span.before at first second
      refine differs kept mem (Prod.ext ?_ ?_) <;> omega

variable {shape : List ℕ} {name : String} {total cursor : ℤ} {last : Option (Piece Row)}
  {pieces result : List (Piece Row)}

/-- The pieces with the range of a kept one are equal to it. -/
def Repeats (equal : Row → Row → Bool) (name : String) (last : Option (Piece Row)) (pieces : List (Piece Row)) :
    Prop := ∀ kept ∈ last, ∀ piece ∈ pieces, piece.range = kept.range → Same equal name piece kept

theorem repeats_some {kept : Piece Row} (equivalence : Equivalence fun one two => equal one two = true)
    (same : piece.range = kept.range) :
    Repeats equal name (some kept) (piece :: pieces) ∧ Agree equal name (piece :: pieces) ↔
      Same equal name piece kept ∧ Repeats equal name (some kept) pieces ∧ Agree equal name pieces := by
  unfold Agree
  rw [pairwise_cons]
  constructor
  · rintro ⟨all, -, agree⟩
    obtain ⟨first, others⟩ := forall_mem_cons.mp (all kept rfl)
    exact ⟨first same, fun last mem => by cases mem; exact others, agree⟩
  · rintro ⟨first, others, agree⟩
    refine ⟨fun last mem => ?_, fun other mem _ alike => ⟨first.1, ?_⟩, agree⟩
    · cases mem
      exact forall_mem_cons.mpr ⟨fun _ => first, others kept rfl⟩
    · have second := others kept rfl other mem (alike.symm.trans same)
      exact first.2.trans equivalence (second.2.symm equivalence)

theorem repeats_none (filled : piece.start < piece.stop)
    (differs : ∀ kept ∈ last, piece.range ≠ kept.range)
    (before : ∀ kept ∈ last, Span.before kept.range piece.range)
    (sorted : ∀ other ∈ pieces, Span.before piece.range other.range)
    (equivalence : Equivalence fun one two => equal one two = true) :
    Repeats equal name last (piece :: pieces) ∧ Agree equal name (piece :: pieces) ↔
      Repeats equal name (some piece) pieces ∧ Agree equal name pieces := by
  unfold Agree
  rw [pairwise_cons]
  constructor
  · rintro ⟨-, first, agree⟩
    refine ⟨fun kept mem other there same => ?_, agree⟩
    cases mem
    have found := first other there filled same.symm
    exact ⟨found.1, found.2.symm equivalence⟩
  · rintro ⟨others, agree⟩
    refine ⟨fun kept mem => forall_mem_cons.mpr ⟨fun same => absurd same (differs kept mem),
      fun other there same => ?_⟩, fun other there _ same => ?_, agree⟩
    · have first := before kept mem
      have second := sorted other there
      rw [same] at second
      unfold Span.before at first second
      refine absurd (Prod.ext ?_ ?_) (differs kept mem) <;> omega
    · have found := others piece rfl other there same.symm
      exact ⟨found.1, found.2.symm equivalence⟩

/-- The pieces after a kept one are accepted exactly when those with other ranges divide the rows that are
left, and those with the same range are equal. -/
theorem coverFrom_iff (equivalence : Equivalence fun one two => equal one two = true)
    (fits : ∀ piece ∈ pieces, piece.Fits shape)
    (sorted : pieces.Pairwise fun one two => Span.before one.range two.range)
    (kept : ∀ piece ∈ last, Kept shape cursor pieces piece) :
    (∃ result, coverFrom chunkBytes equal name total cursor last pieces = .ok result) ↔
      (cursor ≤ total ∧ Span.Partition cursor total (fresh last pieces)) ∧
        Repeats equal name last pieces ∧ Agree equal name pieces := by
  induction pieces generalizing cursor last with
  | nil =>
    unfold coverFrom
    rw [show fresh last [] = [] from rfl, Span.partition_nil]
    split_ifs with differs
    · exact ⟨fun ⟨_, wrong⟩ => (by cases wrong), fun both => absurd both.1 differs⟩
    · exact ⟨fun _ => ⟨not_not.mp differs, nofun, List.Pairwise.nil⟩, fun _ => ⟨[], rfl⟩⟩
  | cons piece rest known =>
    obtain ⟨here, later⟩ := forall_mem_cons.mp fits
    obtain ⟨first, others⟩ := pairwise_cons.mp sorted
    have narrowed : ∀ last, Kept shape cursor (piece :: rest) last → Kept shape cursor rest last :=
      fun last known => ⟨known.fits, known.filled, known.cursor,
        fun other mem => known.before other (mem_cons_of_mem _ mem)⟩
    have known' := known later others fun last mem => narrowed last (kept last mem)
    have ordered := here.ordered
    unfold coverFrom
    by_cases empty : piece.start = piece.stop
    · -- An empty piece is skipped.
      rw [if_pos empty, known', fresh_skip (Or.inl empty)]
      refine and_congr_right fun _ => and_congr ?_ ?_
      · refine forall₂_congr fun last mem => ?_
        have filled := (kept last mem).filled
        refine ⟨fun all => forall_mem_cons.mpr ⟨fun same => ?_, all⟩,
          fun all => (forall_mem_cons.mp all).2⟩
        obtain ⟨starts, stops⟩ := Prod.ext_iff.mp same
        have starts : piece.start = last.start := starts
        have stops : piece.stop = last.stop := stops
        omega
      · unfold Agree
        rw [pairwise_cons]
        refine ⟨fun all => ⟨fun _ _ filled => absurd empty (by omega), all⟩, fun all => all.2⟩
    · cases duplicate : last.filter fun last => piece.range = last.range with
      | some last_ =>
        -- A piece with the range of the kept one has to be equal to it.
        obtain ⟨rfl, same⟩ := Option.filter_eq_some_iff.mp duplicate
        have same : piece.range = last_.range := of_decide_eq_true same
        have alike : equalValues chunkBytes equal piece.value last_.value = true ↔
            Alike equal piece.value.rows last_.value.rows := alike_same here (kept last_ rfl).fits same
        rw [repeats_some equivalence same, fresh_skip (Or.inr ⟨last_, rfl, same⟩)]
        dsimp only
        split_ifs with engram differs
        · refine ⟨fun ⟨_, wrong⟩ => (by cases wrong), fun ⟨_, first, _⟩ => ?_⟩
          rw [first.1] at engram
          cases engram
        · refine ⟨fun ⟨_, wrong⟩ => (by cases wrong), fun ⟨_, first, _⟩ => ?_⟩
          rw [alike.mpr first.2] at differs
          cases differs
        · rw [known']
          have first : Same equal name piece last_ :=
            ⟨eq_false_of_not_eq_true engram, alike.mp (eq_true_of_not_eq_false differs)⟩
          exact and_congr_right fun _ => (and_iff_right first).symm
      | none =>
        -- The next range has to start where the last one stopped.
        have differs : ∀ kept ∈ last, piece.range ≠ kept.range := fun kept mem same =>
          absurd (Option.filter_eq_none_iff.mp duplicate kept mem) (by simp [same])
        have before := fun last_ mem => (kept last_ mem).before piece mem_cons_self
        have filled : piece.start < piece.stop := by omega
        obtain ⟨kept_, left⟩ := fresh_keep empty differs before first
        have inside : ∀ span ∈ fresh last rest, Span.before piece.range span := fun span mem => by
          obtain ⟨other, there, rfl⟩ := mem_map.mp (mem_filter.mp mem).1
          exact first other there
        rw [repeats_none filled differs before first equivalence, kept_,
          Span.partition_cons filled inside, left]
        dsimp only
        split_ifs with starts
        · exact ⟨fun ⟨_, wrong⟩ => (by cases wrong), fun both => absurd both.1.1 starts⟩
        · have held : ∀ kept ∈ some piece, Kept shape piece.stop rest kept := fun kept mem => by
            cases mem
            exact ⟨here, filled, rfl, first⟩
          have next := known later others held
          rw [show ((piece.range.1 = cursor ∧ piece.range.2 ≤ total ∧
              Span.Partition piece.range.2 total (fresh (some piece) rest)) ↔
              (piece.stop ≤ total ∧ Span.Partition piece.stop total (fresh (some piece) rest))) from
            and_iff_right (not_not.mp starts), ← next]
          constructor
          · rintro ⟨result, ran⟩
            split at ran
            · cases ran
            · exact ⟨_, by assumption⟩
          · rintro ⟨result, ran⟩
            rw [ran]
            exact ⟨_, rfl⟩

instance : Std.Total fun one two : Piece Row => Span.before one.range two.range where
  total one two := Std.Total.total (r := Span.before) one.range two.range

instance : IsTrans (Piece Row) fun one two => Span.before one.range two.range where
  trans _ _ _ first second := IsTrans.trans (r := Span.before) _ _ _ first second

theorem mem_sortPieces : piece ∈ sortPieces pieces ↔ piece ∈ pieces :=
  (perm_insertionSort _ pieces).mem_iff

/-- **The pieces of a tensor are accepted** exactly when the rows of the tensor are divided among their
ranges, and pieces with the same range are equal. -/
theorem cover_iff (chunkBytes : ℕ) (equivalence : Equivalence fun one two => equal one two = true)
    (fits : ∀ piece ∈ pieces, piece.Fits shape) :
    (∃ result, cover chunkBytes equal name shape pieces = .ok result) ↔
      Span.Partition 0 (rowsOf shape) (pieces.map Piece.range) ∧ Agree equal name pieces := by
  have order : (sortPieces pieces).Perm pieces := perm_insertionSort _ pieces
  have sorted : (sortPieces pieces).Pairwise fun one two => Span.before one.range two.range :=
    pairwise_insertionSort _ pieces
  have none_ : ∀ piece ∈ (none : Option (Piece Row)), Kept shape 0 (sortPieces pieces) piece :=
    nofun
  have ranges : fresh none (sortPieces pieces)
      = ((sortPieces pieces).map Piece.range).filter fun span => span.1 ≠ span.2 :=
    filter_congr fun span _ => decide_eq_decide.mpr (and_iff_left fun _ mem => by cases mem)
  unfold cover
  rw [coverFrom_iff equivalence (fun piece mem => fits piece (mem_sortPieces.mp mem)) sorted none_,
    ranges, Span.partition_nonempty]
  have same : Span.Partition 0 (rowsOf shape) ((sortPieces pieces).map Piece.range) ↔
      Span.Partition 0 (rowsOf shape) (pieces.map Piece.range) :=
    ⟨fun partition => partition.perm (order.map _), fun partition => partition.perm (order.map _).symm⟩
  have agree : Agree equal name (sortPieces pieces) ↔ Agree equal name pieces := by
    refine order.pairwise_iff fun {one two} known filled alike => ?_
    obtain ⟨starts, stops⟩ := Prod.ext_iff.mp alike
    have found := known (by
      have starts : two.start = one.start := starts
      have stops : two.stop = one.stop := stops
      omega) alike.symm
    exact ⟨found.1, found.2.symm equivalence⟩
  rw [same, agree]
  exact ⟨fun ⟨⟨_, divided⟩, _, equal⟩ => ⟨divided, equal⟩,
    fun ⟨divided, equal⟩ => ⟨⟨Int.natCast_nonneg _, divided⟩, nofun, equal⟩⟩

/-! ### What is kept -/

/-- What is kept follows each other up to the last row, and no piece with rows is left out. -/
structure Covers (name : String) (total cursor : ℤ) (last : Option (Piece Row))
    (pieces result : List (Piece Row)) : Prop where
  consecutive : Span.Consecutive cursor total (result.map Piece.range)
  filled : ∀ piece ∈ result, piece.start ≠ piece.stop
  known : ∀ piece ∈ result, piece ∈ pieces
  all : ∀ piece ∈ pieces, piece.start ≠ piece.stop →
    piece ∈ result ∨ contains name ".engram_tables." = false ∧
      ∃ kept, (kept ∈ result ∨ last = some kept) ∧ piece.range = kept.range

theorem coverFrom_result (ordered : ∀ piece ∈ pieces, piece.start ≤ piece.stop)
    (ran : coverFrom chunkBytes equal name total cursor last pieces = .ok result) :
    Covers name total cursor last pieces result := by
  induction pieces generalizing cursor last result with
  | nil =>
    unfold coverFrom at ran
    split_ifs at ran with differs
    cases ran
    exact ⟨not_not.mp differs, nofun, nofun, nofun⟩
  | cons piece rest known =>
    obtain ⟨here, later⟩ := forall_mem_cons.mp ordered
    unfold coverFrom at ran
    by_cases empty : piece.start = piece.stop
    · rw [if_pos empty] at ran
      have rest_ := known later ran
      exact ⟨rest_.consecutive, rest_.filled, fun piece mem => mem_cons_of_mem _ (rest_.known piece mem),
        forall_mem_cons.mpr ⟨absurd empty, rest_.all⟩⟩
    · cases duplicate : last.filter fun last => piece.range = last.range with
      | some last_ =>
        obtain ⟨rfl, same⟩ := Option.filter_eq_some_iff.mp duplicate
        rw [duplicate] at ran
        dsimp only at ran
        split_ifs at ran with engram differs
        have rest_ := known later ran
        refine ⟨rest_.consecutive, rest_.filled,
          fun piece mem => mem_cons_of_mem _ (rest_.known piece mem),
          forall_mem_cons.mpr ⟨fun _ => Or.inr ⟨eq_false_of_not_eq_true engram, last_, Or.inr rfl,
            of_decide_eq_true same⟩, rest_.all⟩⟩
      | none =>
        rw [duplicate] at ran
        dsimp only at ran
        split_ifs at ran with starts
        split at ran
        · cases ran
        · rename_i kept ran_
          cases ran
          have rest_ := known later ran_
          refine ⟨⟨not_not.mp starts, here, rest_.consecutive⟩, forall_mem_cons.mpr ⟨empty, rest_.filled⟩,
            forall_mem_cons.mpr ⟨List.mem_cons_self,
              fun piece mem => mem_cons_of_mem _ (rest_.known piece mem)⟩,
            forall_mem_cons.mpr ⟨fun _ => Or.inl mem_cons_self, fun other mem filled => ?_⟩⟩
          rcases rest_.all other mem filled with there | ⟨engram, twin, place, same⟩
          · exact Or.inl (mem_cons_of_mem _ there)
          · refine Or.inr ⟨engram, twin, Or.inl ?_, same⟩
            rcases place with there | here
            · exact mem_cons_of_mem _ there
            · cases here
              exact mem_cons_self

theorem cover_result (fits : ∀ piece ∈ pieces, piece.Fits shape)
    (ran : cover chunkBytes equal name shape pieces = .ok result) :
    Covers name (rowsOf shape) 0 none pieces result := by
  have known := coverFrom_result (fun piece mem => (fits piece (mem_sortPieces.mp mem)).ordered) ran
  exact ⟨known.consecutive, known.filled, fun piece mem => mem_sortPieces.mp (known.known piece mem),
    fun piece mem => known.all piece (mem_sortPieces.mpr mem)⟩

/-! ### The whole tensor -/

theorem copyRows_between (before old after chunk : List Row) (sized : old.length = chunk.length) :
    copyRows (before ++ (old ++ after)) before.length chunk = some (before ++ (chunk ++ after)) := by
  unfold copyRows
  rw [if_pos (by simp only [length_append]; omega), take_left, ← sized, ← append_assoc before old,
    ← length_append, drop_left]

theorem copyChunks_indexed (before old after : List Row) (offset start : ℕ) (parts : List (List Row))
    (first : before.length = offset + start) (sized : old.length = parts.flatten.length) :
    copyChunks (before ++ (old ++ after)) offset (indexed start parts)
      = some (before ++ (parts.flatten ++ after)) := by
  induction parts generalizing before old start with
  | nil =>
    obtain rfl : old = [] := length_eq_zero_iff.mp sized
    rfl
  | cons part rest known =>
    rw [flatten_cons, length_append] at sized
    have taken : (old.take part.length).length = part.length := by
      rw [length_take]
      omega
    have here := copyRows_between before (old.take part.length) (old.drop part.length ++ after) part taken
    rw [← append_assoc (old.take part.length), take_append_drop, first] at here
    unfold indexed copyChunks
    rw [here]
    dsimp only
    have later := known (before ++ part) (old.drop part.length) (start + part.length)
      (by rw [length_append]; omega) (by rw [length_drop]; omega)
    rw [append_assoc] at later
    rw [later, flatten_cons, append_assoc, append_assoc]

theorem copyChunks_value (chunkBytes : ℕ) (before old after : List Row) (sized : value.Sized old.length) :
    copyChunks (before ++ (old ++ after)) before.length (chunks chunkBytes value)
      = some (before ++ (value.rows ++ after)) := by
  unfold chunks
  split_ifs with scalar empty
  · unfold copyChunks
    rw [Nat.add_zero, copyRows_between before old after value.rows sized.rows.symm]
    rfl
  · obtain rfl : old = [] := length_eq_zero_iff.mp (by rw [← sized.rows, empty]; rfl)
    rw [empty]
    rfl
  · have parts := copyChunks_indexed before old after before.length 0
      (split (max 1 (chunkBytes / max 1 value.rowBytes)) value.rows) (Nat.add_zero _).symm
      (by rw [split_flatten, sized.rows])
    rw [split_flatten] at parts
    exact parts

/-- The rows of pieces that follow each other, one after another, are written. -/
theorem copyTensor_rows (chunkBytes : ℕ) {low high : ℕ} (before old : List Row) (start : before.length = low)
    (sized : before.length + old.length = high) (fits : ∀ piece ∈ pieces, piece.Fits shape)
    (consecutive : Span.Consecutive low high (pieces.map Piece.range)) :
    copyTensor chunkBytes (before ++ old) pieces
      = some (before ++ pieces.flatMap fun piece => piece.value.rows) := by
  induction pieces generalizing before old low with
  | nil =>
    have same : (low : ℤ) = high := consecutive
    obtain rfl : old = [] := length_eq_zero_iff.mp (by omega)
    rfl
  | cons piece rest known =>
    obtain ⟨here, later⟩ := forall_mem_cons.mp fits
    obtain ⟨starts, ordered, others⟩ := consecutive
    have starts : piece.start = low := starts
    have ordered : piece.start ≤ piece.stop := ordered
    have rows := here.sized.rows
    have below : piece.stop ≤ high := others.bounds.1
    have taken : (old.take (piece.stop - piece.start).toNat).length = (piece.stop - piece.start).toNat := by
      rw [length_take]
      omega
    have copied := copyChunks_value chunkBytes before (old.take (piece.stop - piece.start).toNat)
      (old.drop (piece.stop - piece.start).toNat) (taken.symm ▸ here.sized)
    rw [take_append_drop] at copied
    unfold copyTensor
    rw [show piece.start.toNat = before.length by omega, copied]
    dsimp only
    have next : ((before ++ piece.value.rows).length : ℤ) = piece.stop := by
      rw [length_append]
      omega
    have others : Span.Consecutive ((before ++ piece.value.rows).length : ℕ) high (rest.map Piece.range) := by
      rw [next]
      exact others
    rw [← append_assoc, known (before ++ piece.value.rows) _ rfl (by
      rw [length_append, length_drop]
      omega) later others, flatMap_cons, append_assoc]

end TinyDSV41.Sft
