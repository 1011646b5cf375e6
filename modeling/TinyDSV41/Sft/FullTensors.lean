/-
**A tensor cut into the pieces of its ranks is read back as it was.**

* `slice_shard` — a rank has its share of what it owns.
* `shard_holds` — the shares of the members of a mesh divide the rows.
* `Cut` — ranks that own all rows of a tensor, in complete meshes.
* `Cut.partition` — the ranges of their pieces divide the rows.
* `full_tensors` — the pieces are accepted and copied back, and the rows of Engram tables are yielded once.
-/

import TinyDSV41.Sft.EngramRows

namespace TinyDSV41.Sft

open Lib List Layout Span

variable {Row : Type} {chunkBytes : ℕ} {equal : Row → Row → Bool} {name : String} {shape : List ℕ}

/-! ### Shares -/

/-- The members among which the rows are sharded. -/
def Layout.sharded : Layout → Option (List ℕ)
  | .mesh _ _ members _ placements _ => if placements = [.shard] then some members else none
  | _ => none

def Layout.parts (layout : Layout) : ℕ := layout.sharded.elim 1 length

def Layout.place (layout : Layout) (rank : ℕ) : ℕ := layout.sharded.elim 0 fun mesh => mesh.idxOf rank

theorem shard_one (rows : ℕ) : shard rows 1 0 = (0, rows) := by
  unfold shard
  simp

theorem shard_holds (rows index row : ℕ) {members : ℕ} (some_ : 0 < members) :
    ((shard rows members index).1 ≤ row ∧ row < (shard rows members index).2) ↔
      row < rows ∧ row / ((rows + members - 1) / members) = index := by
  unfold shard
  dsimp only
  generalize wide : (rows + members - 1) / members = width
  constructor
  · intro inside
    have below : row < rows := by omega
    have first : index * width ≤ row := by omega
    have last : row < index * width + width := by omega
    refine ⟨below, Nat.div_eq_of_lt_le first ?_⟩
    rw [Nat.succ_mul]
    exact last
  · rintro ⟨below, rfl⟩
    have filled : 0 < width := by
      rw [← wide]
      exact Nat.div_pos (by omega) some_
    have first := Nat.div_mul_le_self row width
    have last := Nat.lt_div_mul_add (a := row) filled
    omega

theorem shard_ordered (rows members index : ℕ) : (shard rows members index).1 ≤ (shard rows members index).2 := by
  generalize (rows + members - 1) / members = width
  exact le_min (min_le_left _ _) (Nat.le_add_right _ _)

theorem share_below {rows row members : ℕ} (some_ : 0 < members) (below : row < rows) :
    row / ((rows + members - 1) / members) < members := by
  refine Nat.div_lt_of_lt_mul ?_
  have enough := Nat.lt_mul_div_succ (rows + members - 1) some_
  rw [Nat.mul_succ, Nat.mul_comm] at enough
  omega

variable {rank : ℕ}
variable {owned : List ℕ} {offset : ℤ}

section

variable {world : ℕ} {layout : Layout} {range : Span}
  (sliced : slice rank world layout owned offset name = .ok range)
include sliced

theorem slice_members {members : List ℕ} (sharded : layout.sharded = some members) :
    owned ≠ [] ∧ rank ∈ members ∧ members.Nodup ∧ ∀ member ∈ members, member < world := by
  unfold Layout.sharded at sharded
  unfold slice at sliced
  split_ifs at sliced with differs
  cases layout with
  | malformed | plain => cases sharded
  | mesh whole localShape mesh meshNames placements stride =>
    dsimp only at sharded sliced
    split_ifs at sharded with placed
    cases sharded
    by_cases wrong : members = [] ∨ (∃ member ∈ members, world ≤ member) ∨ ¬ members.Nodup ∨ rank ∉ members ∨
        (placements ≠ [.shard] ∧ placements ≠ [.replicate]) ∨ meshNames ≠ 1 ∨ owned = [] ∨ stride ≠ strides owned
    · rw [if_pos wrong] at sliced
      cases sliced
    · push Not at wrong
      obtain ⟨_, ranks, distinct, member, _, _, dims, _⟩ := wrong
      exact ⟨dims, member, distinct, ranks⟩

/-- A rank has its share of what it owns. -/
theorem slice_shard : range = (offset + (shard (rowsOf owned) layout.parts (layout.place rank)).1,
      offset + (shard (rowsOf owned) layout.parts (layout.place rank)).2) := by
  have whole_ : ∀ {layout : Layout}, layout.sharded = none →
      (offset + ((0, rowsOf owned) : ℕ × ℕ).1, offset + ((0, rowsOf owned) : ℕ × ℕ).2)
        = (offset + ((shard (rowsOf owned) layout.parts (layout.place rank)).1 : ℤ),
          offset + ((shard (rowsOf owned) layout.parts (layout.place rank)).2 : ℤ)) := by
    intro layout none_
    unfold Layout.parts place
    rw [none_]
    dsimp only [Option.elim]
    rw [shard_one]
  unfold slice at sliced
  split_ifs at sliced with differs
  cases layout with
  | malformed => cases sliced
  | plain whole localShape =>
    dsimp only at sliced
    split_ifs at sliced with other
    cases sliced
    rw [← whole_ rfl]
    exact Prod.ext (Int.add_zero offset).symm rfl
  | mesh whole localShape members meshNames placements stride =>
    dsimp only at sliced
    split_ifs at sliced with wrong placed other
    · cases sliced
      unfold Layout.parts place Layout.sharded
      dsimp only
      rw [if_pos placed]
      rfl
    · cases sliced
      exact whole_ (if_neg placed)

end

theorem owner_scalar {ownership : Ownership} (owns : owner name ownership [] = .ok (owned, offset)) :
    owned = [] ∧ offset = 0 := by
  unfold owner at owns
  split_ifs at owns
  · split at owns
    · split_ifs at owns
    · cases owns
  · split at owns
    · split_ifs at owns
    · cases owns
  · cases owns
    exact ⟨rfl, rfl⟩

/-! ### Cuts -/

/-- A tensor of a shape cut into the pieces of ranks that own all its rows, each in a complete mesh. -/
structure Cut (name : String) (shape : List ℕ) where
  world : ℕ
  owners : ℕ → Ownership
  layouts : ℕ → Layout
  owned : ℕ → List ℕ
  offset : ℕ → ℤ
  range : ℕ → Span
  owns : ∀ rank < world, owner name (owners rank) shape = .ok (owned rank, offset rank)
  sliced : ∀ rank < world, slice rank world (layouts rank) (owned rank) (offset rank) name = .ok (range rank)
  divided : Span.Partition 0 (rowsOf shape)
    ((List.range world).map fun rank => (offset rank, offset rank + rowsOf (owned rank)))
  complete : ∀ rank < world, ∀ members, (layouts rank).sharded = some members → ∀ member ∈ members,
    (layouts member).sharded = some members ∧ owned member = owned rank ∧ offset member = offset rank

namespace Cut

variable (cut : Cut name shape)

def ownedSpan (rank : ℕ) : Span := (cut.offset rank, cut.offset rank + rowsOf (cut.owned rank))

def width (rank : ℕ) : ℕ :=
  (rowsOf (cut.owned rank) + (cut.layouts rank).parts - 1) / (cut.layouts rank).parts

/-- Ranks that own the same rows divide them into shares of one width. -/
def Alike : Prop := ∀ rank < cut.world, ∀ other < cut.world, cut.ownedSpan rank = cut.ownedSpan other →
  0 < rowsOf (cut.owned rank) → cut.width rank = cut.width other

instance : Decidable cut.Alike :=
  inferInstanceAs (Decidable (∀ rank < cut.world, ∀ other < cut.world, _ → _ → _))

def Distinct : Prop := ∀ rank < cut.world, ∀ other < cut.world, rank ≠ other →
  (cut.range rank).1 < (cut.range rank).2 → cut.range rank ≠ cut.range other

def piece (tensor : List Row) (rowBytes rank : ℕ) : Piece Row where
  start := (cut.range rank).1
  stop := (cut.range rank).2
  value :=
    { scalar := decide (shape = [])
      rowBytes
      rows := rowsBetween tensor (cut.range rank).1.toNat (cut.range rank).2.toNat }

def pieces (tensor : List Row) (rowBytes : ℕ) : List (Piece Row) :=
  (List.range cut.world).map (cut.piece tensor rowBytes)

variable {cut}

theorem parts_pos (mem : rank < cut.world) : 0 < (cut.layouts rank).parts := by
  unfold Layout.parts
  cases sharded : (cut.layouts rank).sharded with
  | none => exact Nat.one_pos
  | some members => exact length_pos_of_mem (slice_members (cut.sliced rank mem) sharded).2.1

theorem range_holds (mem : rank < cut.world) (row : ℤ) :
    (cut.range rank).Holds row ↔ (cut.ownedSpan rank).Holds row ∧
      (row - cut.offset rank).toNat / cut.width rank = (cut.layouts rank).place rank := by
  have share := shard_holds (rowsOf (cut.owned rank)) ((cut.layouts rank).place rank)
    (row - cut.offset rank).toNat (parts_pos mem)
  rw [slice_shard (cut.sliced rank mem)]
  unfold Span.Holds ownedSpan
  constructor
  · intro inside
    obtain ⟨below, found⟩ := share.mp (by omega)
    exact ⟨by omega, found⟩
  · rintro ⟨inside, found⟩
    have within := share.mpr ⟨by omega, found⟩
    omega

theorem exists_member {index : ℕ} (mem : rank < cut.world) (below : index < (cut.layouts rank).parts) :
    ∃ other < cut.world, cut.owned other = cut.owned rank ∧ cut.offset other = cut.offset rank ∧
      (cut.layouts other).parts = (cut.layouts rank).parts ∧ (cut.layouts other).place other = index := by
  unfold Layout.parts place at *
  cases sharded : (cut.layouts rank).sharded with
  | none =>
    rw [sharded] at below
    refine ⟨rank, mem, rfl, rfl, by rw [sharded], ?_⟩
    rw [sharded]
    exact (Nat.lt_one_iff.mp below).symm
  | some members =>
    rw [sharded] at below
    obtain ⟨-, -, distinct, ranks⟩ := slice_members (cut.sliced rank mem) sharded
    have there : members[index] ∈ members := getElem_mem below
    obtain ⟨same, owned, offset⟩ := cut.complete rank mem members sharded _ there
    refine ⟨members[index], ranks _ there, owned, offset, by rw [same], ?_⟩
    rw [same]
    exact distinct.idxOf_getElem index below

/-- **The ranges of the pieces divide the rows.** -/
theorem partition (alike : cut.Alike) :
    Span.Partition 0 (rowsOf shape) ((List.range cut.world).map cut.range) where
  rows row := by
    rw [← cut.divided.rows row]
    constructor
    · rintro ⟨_, member, holds⟩
      obtain ⟨rank, there, rfl⟩ := mem_map.mp member
      exact ⟨_, mem_map_of_mem there, ((range_holds (mem_range.mp there) row).mp holds).1⟩
    · rintro ⟨_, member, holds⟩
      obtain ⟨rank, there, rfl⟩ := mem_map.mp member
      have member := mem_range.mp there
      have inside : cut.offset rank ≤ row ∧ row < cut.offset rank + rowsOf (cut.owned rank) := holds
      -- The row is in the share of a member of the mesh of its owner.
      have below : (row - cut.offset rank).toNat < rowsOf (cut.owned rank) := by omega
      obtain ⟨other, below, owned, offset, parts, place⟩ :=
        exists_member member (share_below (parts_pos member) below)
      refine ⟨_, mem_map_of_mem (mem_range.mpr below), (range_holds below row).mpr ⟨?_, ?_⟩⟩
      · unfold ownedSpan
        rw [owned, offset]
        exact holds
      · unfold width
        rw [owned, offset, parts, place]
  apart one first two second row holds holds' := by
    obtain ⟨rank, there, rfl⟩ := mem_map.mp first
    obtain ⟨other, there', rfl⟩ := mem_map.mp second
    have member := mem_range.mp there
    have member' := mem_range.mp there'
    obtain ⟨held, place⟩ := (range_holds member row).mp holds
    obtain ⟨held', place'⟩ := (range_holds member' row).mp holds'
    have owned : cut.ownedSpan rank = cut.ownedSpan other :=
      cut.divided.apart _ (mem_map_of_mem there) _ (mem_map_of_mem there') row held held'
    have filled : 0 < rowsOf (cut.owned rank) := by
      have held : cut.offset rank ≤ row ∧ row < cut.offset rank + rowsOf (cut.owned rank) := held
      omega
    have wide := alike rank member other member' owned filled
    obtain ⟨starts, stops⟩ := Prod.ext_iff.mp owned
    have starts : cut.offset rank = cut.offset other := starts
    have stops : cut.offset rank + rowsOf (cut.owned rank) = cut.offset other + rowsOf (cut.owned other) := stops
    have rows : rowsOf (cut.owned rank) = rowsOf (cut.owned other) := by omega
    rw [starts, wide] at place
    unfold width at wide
    rw [slice_shard (cut.sliced rank member), slice_shard (cut.sliced other member'), starts, ← place, ← place']
    unfold shard
    rw [wide, rows]

theorem range_scalar (mem : rank < cut.world) (scalar : shape = []) : cut.range rank = (0, 1) := by
  subst scalar
  obtain ⟨owned, offset⟩ := owner_scalar (cut.owns rank mem)
  have whole : (cut.layouts rank).sharded = none := by
    cases sharded : (cut.layouts rank).sharded with
    | none => rfl
    | some members => exact absurd owned (slice_members (cut.sliced rank mem) sharded).1
  rw [slice_shard (cut.sliced rank mem), owned, offset]
  unfold Layout.parts place
  rw [whole]
  rfl

variable {tensor : List Row}

theorem piece_fits (alike : cut.Alike) {rowBytes : ℕ} (sized : tensor.length = rowsOf shape)
    (mem : rank < cut.world) :
    (cut.piece tensor rowBytes rank).Fits shape := by
  have ordered : (cut.range rank).1 ≤ (cut.range rank).2 := by
    rw [slice_shard (cut.sliced rank mem)]
    exact Int.add_le_add_left (Int.ofNat_le.mpr (shard_ordered _ _ _)) _
  refine ⟨ordered, rfl, ?_, ?_⟩
  · show (rowsBetween tensor (cut.range rank).1.toNat (cut.range rank).2.toNat).length
      = ((cut.range rank).2 - (cut.range rank).1).toNat
    unfold rowsBetween
    rw [length_take, length_drop, sized]
    by_cases empty : (cut.range rank).1 = (cut.range rank).2
    · omega
    · have within : ∀ row, (cut.range rank).Holds row → 0 ≤ row ∧ row < rowsOf shape := fun row holds =>
        ((partition alike).rows row).mp ⟨_, mem_map_of_mem (mem_range.mpr mem), holds⟩
      have first := within (cut.range rank).1 ⟨le_rfl, by omega⟩
      have last := within ((cut.range rank).2 - 1) ⟨by omega, by omega⟩
      omega
  · intro scalar
    have whole := range_scalar mem (of_decide_eq_true scalar)
    show ((cut.range rank).2 - (cut.range rank).1).toNat = 1
    rw [whole]
    rfl

theorem consecutive_rows {rowBytes low high : ℕ} {result : List (Piece Row)}
    (known : ∀ piece ∈ result, ∃ rank, piece = cut.piece tensor rowBytes rank)
    (consecutive : Span.Consecutive low high (result.map Piece.range)) :
    (result.flatMap fun piece => piece.value.rows) = rowsBetween tensor low high := by
  induction result generalizing low with
  | nil =>
    have same : (low : ℤ) = high := consecutive
    obtain rfl : low = high := Int.ofNat.inj same
    unfold rowsBetween
    rw [Nat.sub_self, take_zero]
    rfl
  | cons piece rest later =>
    obtain ⟨⟨rank, rfl⟩, others⟩ := forall_mem_cons.mp known
    obtain ⟨starts, ordered, after⟩ := consecutive
    have starts : (cut.range rank).1 = low := starts
    have ordered : (cut.range rank).1 ≤ (cut.range rank).2 := ordered
    have below : (cut.range rank).2 ≤ high := after.bounds.1
    obtain ⟨stop, stops⟩ := Int.eq_ofNat_of_zero_le (show 0 ≤ (cut.range rank).2 by omega)
    have after : Span.Consecutive stop high (rest.map Piece.range) := stops ▸ after
    rw [flatMap_cons, later others after]
    show rowsBetween tensor (cut.range rank).1.toNat (cut.range rank).2.toNat ++ rowsBetween tensor stop high = _
    rw [starts, stops, Int.toNat_natCast, Int.toNat_natCast]
    unfold rowsBetween
    have sums : high - low = (stop - low) + (high - stop) := by omega
    rw [sums, take_add, drop_drop, show low + (stop - low) = stop by omega]

/-- **The pieces are accepted, and copied back to the tensor.** -/
theorem copied (equivalence : Equivalence fun one two => equal one two = true) (alike : cut.Alike)
    (distinct : contains name ".engram_tables." = true → cut.Distinct)
    (sized : tensor.length = rowsOf shape) (chunkBytes rowBytes : ℕ) :
    ∃ result, cover chunkBytes equal name shape (cut.pieces tensor rowBytes) = .ok result ∧
      ∀ destination : List Row, destination.length = tensor.length →
        copyTensor chunkBytes destination result = some tensor := by
  have fits : ∀ piece ∈ cut.pieces tensor rowBytes, piece.Fits shape := by
    intro piece mem
    obtain ⟨rank, there, rfl⟩ := mem_map.mp mem
    exact piece_fits alike sized (mem_range.mp there)
  have agree : Agree equal name (cut.pieces tensor rowBytes) := by
    refine pairwise_map.mpr (pairwise_lt_range.imp_of_mem fun {rank other} first second less => ?_)
    intro filled same
    have same : cut.range rank = cut.range other := same
    refine ⟨?_, ?_⟩
    · refine Bool.eq_false_of_not_eq_true fun engram => ?_
      exact distinct engram rank (mem_range.mp first) other (mem_range.mp second) (ne_of_lt less) filled same
    · show Sft.Alike equal (rowsBetween tensor (cut.range rank).1.toNat (cut.range rank).2.toNat)
        (rowsBetween tensor (cut.range other).1.toNat (cut.range other).2.toNat)
      rw [same]
      exact forall₂_same.mpr fun row _ => equivalence.refl row
  have ranges : (cut.pieces tensor rowBytes).map Piece.range = (List.range cut.world).map cut.range := by
    unfold pieces
    rw [map_map]
    rfl
  obtain ⟨result, accepted⟩ := (cover_iff chunkBytes equivalence fits).mpr ⟨ranges ▸ partition alike, agree⟩
  refine ⟨result, accepted, fun destination length => ?_⟩
  have covers := cover_result fits accepted
  have known : ∀ piece ∈ result, ∃ rank, piece = cut.piece tensor rowBytes rank := fun piece mem => by
    obtain ⟨rank, -, rfl⟩ := mem_map.mp (covers.known piece mem)
    exact ⟨rank, rfl⟩
  have consecutive : Span.Consecutive ((0 : ℕ) : ℤ) (rowsOf shape) (result.map Piece.range) := covers.consecutive
  have written := copyTensor_rows chunkBytes [] destination rfl ((Nat.zero_add _).trans (length.trans sized))
    (fun piece mem => fits piece (covers.known piece mem)) consecutive
  rw [nil_append, nil_append, consecutive_rows known consecutive] at written
  rw [written]
  unfold rowsBetween
  rw [drop_zero, Nat.sub_zero, take_of_length_le sized.le]

end Cut

/-- **Tensors are read back.** A tensor that is cut into the pieces of its ranks is accepted and copied back,
where ranks that own the same rows have shares of one width, and no two have the same rows of an Engram
table. Pieces are accepted exactly when they divide the rows and those of the same rows are equal. Accepted
Engram tables yield every row once in the order of the indices, whole ones and sparse ones. -/
theorem full_tensors {Row : Type} (equal : Row → Row → Bool)
    (equivalence : Equivalence fun one two => equal one two = true) (chunkBytes : ℕ) (name : String)
    (shape : List ℕ) :
    (∀ cut : Cut name shape, cut.Alike → (contains name ".engram_tables." = true → cut.Distinct) →
      ∀ (tensor : List Row) (rowBytes : ℕ), tensor.length = rowsOf shape →
        ∃ result, cover chunkBytes equal name shape (cut.pieces tensor rowBytes) = .ok result ∧
          ∀ destination : List Row, destination.length = tensor.length →
            copyTensor chunkBytes destination result = some tensor) ∧
    (∀ pieces : List (Piece Row), (∀ piece ∈ pieces, piece.Fits shape) →
      ((∃ result, cover chunkBytes equal name shape pieces = .ok result) ↔
        Span.Partition 0 (rowsOf shape) (pieces.map Piece.range) ∧ Agree equal name pieces)) ∧
    (contains name ".engram_tables." = true → ∀ pieces result : List (Piece Row),
      (∀ piece ∈ pieces, piece.Fits shape) → cover chunkBytes equal name shape pieces = .ok result →
        Yields (iterFull chunkBytes result) fun id row =>
          ∃ piece ∈ pieces, rowAt piece.value.rows (id - piece.start) = some row) ∧
    (∀ records : List (SparseRows Row), (∀ record ∈ records, record.Valid) →
      coverSparse name (rowsOf shape) 0 (sortOwners records) = .ok () →
        Yields (iterSparse chunkBytes records) fun id row =>
          ∃ record ∈ records, (id - record.start, row) ∈ record.ids.zip record.values.rows) := by
  refine ⟨fun cut alike distinct tensor rowBytes sized => ?_, fun pieces fits => ?_,
    fun engram pieces result fits covered => ?_, fun records valid covered => ?_⟩
  · exact Cut.copied equivalence alike distinct sized chunkBytes rowBytes
  · exact cover_iff chunkBytes equivalence fits
  · exact full_yields fits engram covered
  · exact sparse_yields valid covered

/-- Two shares of three experts, and two whole copies of two others. -/
def expertLayout (rank : ℕ) : Layout :=
  if rank < 2 then .mesh [3, 2] [if rank = 0 then 2 else 1, 2] [0, 1] 1 [.shard] [2, 1]
  else .mesh [2, 2] [2, 2] [2, 3] 1 [.replicate] [2, 1]

def experts : Cut "model.layers.0.moe.routed.w1" [5, 2] where
  world := 4
  owners rank :=
    if rank < 2 then ⟨some 0, some 3, some 5, none, none, none, none⟩
    else ⟨some 3, some 2, some 5, none, none, none, none⟩
  layouts := expertLayout
  owned rank := if rank < 2 then [3, 2] else [2, 2]
  offset rank := if rank < 2 then 0 else 3
  range rank := if rank = 0 then (0, 2) else if rank = 1 then (2, 3) else (3, 5)
  owns := by decide
  sliced := by decide
  divided := by
    have one : ∀ other ∈ ([(0, 3), (3, 5), (3, 5)] : List Span), before (0, 3) other := by decide
    have two : ∀ other ∈ ([(3, 5)] : List Span), before (3, 5) other := by decide
    have last := ((partition_cons (by decide) two).mpr ⟨rfl, le_rfl, (partition_nil.mpr rfl).2⟩).2
    exact ((partition_cons (by decide) one).mpr ⟨rfl, by decide, last⟩).2
  complete rank below members sharded := by
    have first : rank < 2 := by
      by_contra other
      unfold expertLayout Layout.sharded at sharded
      rw [if_neg other] at sharded
      cases sharded
    unfold expertLayout at sharded
    rw [if_pos first] at sharded
    cases sharded
    rw [if_pos first, if_pos first]
    decide

theorem repeated_partition {low high : ℤ} {spans : List Span}
    (same : ∀ span ∈ spans, span = (low, high)) (some_ : (low, high) ∈ spans) : Span.Partition low high spans where
  rows row := by
    constructor
    · rintro ⟨span, mem, holds⟩
      rw [same span mem] at holds
      exact holds
    · exact fun inside => ⟨_, some_, inside⟩
  apart one first two second _ _ _ := (same one first).trans (same two second).symm

def tables : Cut "model.engram_tables.0.weight" [2, 1] where
  world := 2
  owners _ := ⟨none, none, none, some 0, some 2, some 2, some 1⟩
  layouts _ := .plain [2, 1] [2, 1]
  owned _ := [2, 1]
  offset _ := 0
  range _ := (0, 2)
  owns := by decide
  sliced := by decide
  divided := repeated_partition (by decide) (by decide)
  complete := nofun

/-- Two shares of a tensor, and three shares of it. -/
def meshLayout (rank : ℕ) : Layout :=
  if rank < 2 then .mesh [6] [3] [0, 1] 1 [.shard] [1] else .mesh [6] [2] [2, 3, 4] 1 [.shard] [1]

def meshes : Cut "model.norm.weight" [6] where
  world := 5
  owners _ := ⟨none, none, none, none, none, none, none⟩
  layouts := meshLayout
  owned _ := [6]
  offset _ := 0
  range rank := if rank < 2 then (3 * rank, 3 * rank + 3) else (2 * rank - 4, 2 * rank - 2)
  owns := by decide
  sliced := by decide
  divided := repeated_partition (by decide) (by decide)
  complete rank below members sharded := by
    unfold meshLayout at sharded
    split_ifs at sharded
    all_goals
      cases sharded
      decide

theorem cuts_refused :
    (¬ ∃ result, cover 1 (fun one two : ℕ => decide (one = two)) "model.engram_tables.0.weight" [2, 1]
        (tables.pieces [7, 8] 4) = .ok result) ∧
      ¬ ∃ result, cover 1 (fun one two : ℕ => decide (one = two)) "model.norm.weight" [6]
        (meshes.pieces [1, 2, 3, 4, 5, 6] 4) = .ok result := by
  constructor
  · rintro ⟨result, accepted⟩
    have refused : (cover 1 (fun one two : ℕ => decide (one = two)) "model.engram_tables.0.weight" [2, 1]
        (tables.pieces [7, 8] 4)).isOk = false := by decide
    rw [accepted] at refused
    cases refused
  · rintro ⟨result, accepted⟩
    have refused : (cover 1 (fun one two : ℕ => decide (one = two)) "model.norm.weight" [6]
        (meshes.pieces [1, 2, 3, 4, 5, 6] 4)).isOk = false := by decide
    rw [accepted] at refused
    cases refused

/-- The experts of four ranks are read back. -/
theorem experts_copied :
    ∃ result, cover 1 (fun one two : ℕ => decide (one = two)) "model.layers.0.moe.routed.w1" [5, 2]
        (experts.pieces [10, 11, 12, 13, 14] 8) = .ok result ∧
      ∀ destination : List ℕ, destination.length = 5 →
        copyTensor 1 destination result = some [10, 11, 12, 13, 14] :=
  (full_tensors (fun one two : ℕ => decide (one = two))
    ⟨fun _ => decide_eq_true rfl, fun same => decide_eq_true (of_decide_eq_true same).symm,
      fun first second => decide_eq_true ((of_decide_eq_true first).trans (of_decide_eq_true second))⟩
    1 "model.layers.0.moe.routed.w1" [5, 2]).1 experts (by decide)
    (fun engram => absurd engram (by decide)) [10, 11, 12, 13, 14] 8 rfl

end TinyDSV41.Sft
