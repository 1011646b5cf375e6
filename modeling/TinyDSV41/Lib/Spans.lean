/-
**Half-open spans of rows.**

* `Consecutive` — spans that follow each other from one row to another.
* `Tiles` — every row between the two belongs to exactly one span.
* `Clear` — no empty span lies within another one.
* `consecutive_iff` — sorted spans are consecutive exactly when they tile and are clear.
* `partition_cons` — spans that may repeat, from the first one on.
-/

import Mathlib.Data.List.Sort

namespace TinyDSV41.Lib

open List

/-- The rows from the first bound on, below the second one. -/
abbrev Span := ℤ × ℤ

namespace Span

def Holds (span : Span) (row : ℤ) : Prop := span.1 ≤ row ∧ row < span.2

instance (span : Span) (row : ℤ) : Decidable (span.Holds row) :=
  inferInstanceAs (Decidable (_ ∧ _))

def before (first second : Span) : Prop :=
  first.1 < second.1 ∨ first.1 = second.1 ∧ first.2 ≤ second.2

instance (first second : Span) : Decidable (before first second) :=
  inferInstanceAs (Decidable (_ ∨ _))

instance : Std.Total before where
  total first second := by
    unfold before
    omega

instance : IsTrans Span before where
  trans first second third := by
    unfold before
    omega

def holders (spans : List Span) (row : ℤ) : ℕ := spans.countP fun span => span.Holds row

/-- Every row between two bounds belongs to exactly one span, and no other row to any. -/
def Tiles (low high : ℤ) (spans : List Span) : Prop :=
  ∀ row, holders spans row = if low ≤ row ∧ row < high then 1 else 0

/-- No empty span lies within another span. -/
def Clear (spans : List Span) : Prop :=
  ∀ one ∈ spans, one.1 = one.2 → ∀ two ∈ spans, ¬ (two.1 < one.1 ∧ one.1 < two.2)

/-- Each span starts where the one before it stops. -/
def Consecutive (low high : ℤ) : List Span → Prop
  | [] => low = high
  | span :: rest => span.1 = low ∧ span.1 ≤ span.2 ∧ Consecutive span.2 high rest

variable {low high row : ℤ} {span : Span} {spans : List Span}

theorem holders_cons : holders (span :: spans) row
    = holders spans row + if span.Holds row then 1 else 0 := by
  unfold holders
  rw [countP_cons]
  simp

theorem holders_eq_zero : holders spans row = 0 ↔ ∀ span ∈ spans, ¬ span.Holds row := by
  unfold holders
  simp

theorem holders_pos : 0 < holders spans row ↔ ∃ span ∈ spans, span.Holds row := by
  unfold holders
  simp

variable {other : List Span}

theorem holders_perm (same : spans.Perm other) (row : ℤ) :
    holders spans row = holders other row := same.countP_eq _

theorem Tiles.perm (tiles : Tiles low high spans) (same : spans.Perm other) :
    Tiles low high other := fun row => (holders_perm same row).symm.trans (tiles row)

theorem Clear.perm (clear : Clear spans) (same : spans.Perm other) :
    Clear other := fun one first empty two second =>
  clear one (same.mem_iff.mpr first) empty two (same.mem_iff.mpr second)

section

variable (consecutive : Consecutive low high spans)
include consecutive

theorem Consecutive.bounds :
    low ≤ high ∧ ∀ span ∈ spans, low ≤ span.1 ∧ span.1 ≤ span.2 ∧ span.2 ≤ high := by
  induction spans generalizing low with
  | nil =>
    obtain rfl : low = high := consecutive
    exact ⟨le_rfl, nofun⟩
  | cons span rest known =>
    obtain ⟨starts, ordered, later⟩ := consecutive
    obtain ⟨below, inside⟩ := known later
    refine ⟨by omega, forall_mem_cons.mpr ⟨by omega, fun other mem => ?_⟩⟩
    have := inside other mem
    omega

theorem Consecutive.apart : spans.Pairwise fun one two => one.2 ≤ two.1 := by
  induction spans generalizing low with
  | nil => exact List.Pairwise.nil
  | cons span rest known =>
    obtain ⟨starts, ordered, later⟩ := consecutive
    exact pairwise_cons.mpr ⟨fun other mem => (later.bounds.2 other mem).1, known later⟩

theorem Consecutive.tiles : Tiles low high spans := by
  induction spans generalizing low with
  | nil =>
    obtain rfl : low = high := consecutive
    intro row
    rw [if_neg (by omega)]
    rfl
  | cons span rest known =>
    obtain ⟨starts, ordered, later⟩ := consecutive
    have below := later.bounds.1
    intro row
    rw [holders_cons, known later row]
    by_cases holds : span.Holds row
    · rw [if_pos holds]
      unfold Holds at holds
      rw [if_neg (by omega), if_pos (by omega)]
    · rw [if_neg holds]
      unfold Holds at holds
      split_ifs <;> omega

theorem Consecutive.clear : Clear spans := by
  induction spans generalizing low with
  | nil => exact nofun
  | cons span rest known =>
    obtain ⟨starts, ordered, later⟩ := consecutive
    have inside := later.bounds.2
    intro one first empty two second
    rcases mem_cons.mp first with rfl | first
    · rcases mem_cons.mp second with rfl | second
      · omega
      · have := inside two second
        omega
    · have := inside one first
      rcases mem_cons.mp second with rfl | second
      · omega
      · exact known later one first empty two second

end

/-- **Sorted spans are consecutive** exactly when they tile and no empty one lies within another. -/
theorem consecutive_iff (below : low ≤ high) (sorted : spans.Pairwise before)
    (inside : ∀ span ∈ spans, low ≤ span.1 ∧ span.1 ≤ span.2 ∧ span.2 ≤ high) :
    Consecutive low high spans ↔ Tiles low high spans ∧ Clear spans := by
  refine ⟨fun consecutive => ⟨consecutive.tiles, consecutive.clear⟩, ?_⟩
  rintro ⟨tiles, clear⟩
  induction spans generalizing low with
  | nil =>
    have none_ := tiles low
    rw [show holders [] low = 0 from rfl] at none_
    split_ifs at none_ with held
    show low = high
    omega
  | cons span rest known =>
    obtain ⟨first, later⟩ := pairwise_cons.mp sorted
    obtain ⟨here, others⟩ := forall_mem_cons.mp inside
    -- The first row is held by a span, which does not start before the first one.
    have starts : span.1 = low := by
      by_cases filled : low < high
      · have held : 0 < holders (span :: rest) low := by
          rw [tiles low, if_pos ⟨le_rfl, filled⟩]
          exact Nat.one_pos
        obtain ⟨holder, mem, holds⟩ := holders_pos.mp held
        unfold Holds at holds
        rcases mem_cons.mp mem with rfl | mem
        · omega
        · have order := first holder mem
          unfold before at order
          omega
      · omega
    have stops : ∀ row, span.Holds row → holders rest row = 0 := by
      intro row holds
      have total := tiles row
      rw [holders_cons, if_pos holds, if_pos (by unfold Holds at holds; omega)] at total
      omega
    -- A later span does not start before the first one stops.
    have behind : ∀ other ∈ rest, span.2 ≤ other.1 := by
      intro other mem
      have bounds := others other mem
      have order := first other mem
      unfold before at order
      by_contra short
      by_cases empty : other.1 = other.2
      · exact clear other (mem_cons_of_mem _ mem) empty span mem_cons_self (by omega)
      · have held : span.Holds other.1 := ⟨by omega, by omega⟩
        exact holders_eq_zero.mp (stops _ held) other mem ⟨le_rfl, by omega⟩
    refine ⟨starts, here.2.1, known here.2.2 later (fun other mem => ?_) (fun row => ?_) ?_⟩
    · have := others other mem
      exact ⟨behind other mem, this.2⟩
    · have total := tiles row
      rw [holders_cons] at total
      by_cases holds : span.Holds row
      · rw [stops row holds, if_neg]
        unfold Holds at holds
        omega
      · rw [if_neg holds, Nat.add_zero] at total
        rw [total]
        unfold Holds at holds
        split_ifs <;> omega
    · exact fun one mem empty two member' =>
        clear one (mem_cons_of_mem _ mem) empty two (mem_cons_of_mem _ member')

/-! ### Spans that may repeat -/

/-- Every row between two bounds, and no other, belongs to a span, and spans that share a row are the
same. -/
structure Partition (low high : ℤ) (spans : List Span) : Prop where
  rows : ∀ row, (∃ span ∈ spans, span.Holds row) ↔ low ≤ row ∧ row < high
  apart : ∀ one ∈ spans, ∀ two ∈ spans, ∀ row, one.Holds row → two.Holds row → one = two

theorem partition_nil : low ≤ high ∧ Partition low high [] ↔ low = high := by
  constructor
  · rintro ⟨below, partition⟩
    by_contra differs
    obtain ⟨_, mem, -⟩ := (partition.rows low).mpr ⟨le_rfl, by omega⟩
    cases mem
  · rintro rfl
    refine ⟨le_rfl, fun row => ⟨fun ⟨_, mem, _⟩ => (by cases mem), fun inside => ?_⟩, nofun⟩
    omega

theorem Partition.perm (partition : Partition low high spans) (same : spans.Perm other) :
    Partition low high other where
  rows row := by
    rw [← partition.rows row]
    exact exists_congr fun span => by rw [same.mem_iff]
  apart one first two second := partition.apart one (same.mem_iff.mpr first) two (same.mem_iff.mpr second)

/-- The first of some sorted spans starts at the lower bound, and the others but its copies divide
what is left. -/
theorem partition_cons (filled : span.1 < span.2) (sorted : ∀ other ∈ spans, before span other) :
    low ≤ high ∧ Partition low high (span :: spans) ↔
      span.1 = low ∧ span.2 ≤ high ∧ Partition span.2 high (spans.filter fun other => other ≠ span) := by
  have behind : ∀ other ∈ spans, span.1 ≤ other.1 := by
    intro other mem
    have order := sorted other mem
    unfold before at order
    omega
  constructor
  · rintro ⟨-, partition⟩
    have first := (partition.rows span.1).mp ⟨span, mem_cons_self, le_rfl, filled⟩
    have last := (partition.rows (span.2 - 1)).mp ⟨span, mem_cons_self, by omega, by omega⟩
    have starts : span.1 = low := by
      obtain ⟨holder, mem, holds⟩ := (partition.rows low).mpr ⟨le_rfl, by omega⟩
      unfold Holds at holds
      rcases mem_cons.mp mem with rfl | mem
      · omega
      · have := behind holder mem
        omega
    refine ⟨starts, by omega, fun row => ⟨?_, fun inside => ?_⟩, fun one first two second =>
      partition.apart one (mem_cons_of_mem _ (mem_filter.mp first).1) two
        (mem_cons_of_mem _ (mem_filter.mp second).1)⟩
    · rintro ⟨other, mem, holds⟩
      obtain ⟨there, differs⟩ := mem_filter.mp mem
      have bounds := (partition.rows row).mp ⟨other, mem_cons_of_mem _ there, holds⟩
      refine ⟨?_, bounds.2⟩
      by_contra short
      refine absurd (partition.apart other (mem_cons_of_mem _ there) span mem_cons_self row holds
        ⟨by omega, by omega⟩) (of_decide_eq_true differs)
    · obtain ⟨holder, mem, holds⟩ := (partition.rows row).mpr ⟨by omega, inside.2⟩
      rcases mem_cons.mp mem with rfl | mem
      · unfold Holds at holds
        omega
      · refine ⟨holder, mem_filter.mpr ⟨mem, decide_eq_true fun same => ?_⟩, holds⟩
        rw [same] at holds
        unfold Holds at holds
        omega
  · rintro ⟨rfl, below, partition⟩
    have later : ∀ other ∈ spans, other ≠ span → ∀ row, other.Holds row → span.2 ≤ row := by
      intro other mem differs row holds
      exact ((partition.rows row).mp ⟨other, mem_filter.mpr ⟨mem, decide_eq_true differs⟩, holds⟩).1
    refine ⟨by omega, fun row => ⟨?_, fun inside => ?_⟩, fun one first two second row holds holds' => ?_⟩
    · rintro ⟨other, mem, holds⟩
      by_cases same : other = span
      · subst same
        unfold Holds at holds
        omega
      · have there := (mem_cons.mp mem).resolve_left same
        have bounds := (partition.rows row).mp ⟨other, mem_filter.mpr ⟨there, decide_eq_true same⟩, holds⟩
        omega
    · by_cases here : row < span.2
      · exact ⟨span, mem_cons_self, inside.1, here⟩
      · obtain ⟨other, mem, holds⟩ := (partition.rows row).mpr ⟨by omega, inside.2⟩
        exact ⟨other, mem_cons_of_mem _ (mem_filter.mp mem).1, holds⟩
    · by_cases same : one = span
      · by_cases same' : two = span
        · rw [same, same']
        · have := later two ((mem_cons.mp second).resolve_left same') same' row holds'
          rw [same] at holds
          unfold Holds at holds
          omega
      · have there := (mem_cons.mp first).resolve_left same
        by_cases same' : two = span
        · have := later one there same row holds
          rw [same'] at holds'
          unfold Holds at holds'
          omega
        · have there' := (mem_cons.mp second).resolve_left same'
          exact partition.apart one (mem_filter.mpr ⟨there, decide_eq_true same⟩) two
            (mem_filter.mpr ⟨there', decide_eq_true same'⟩) row holds holds'

theorem partition_nonempty :
    Partition low high (spans.filter fun span => span.1 ≠ span.2) ↔ Partition low high spans := by
  have held : ∀ {span : Span} {row}, span ∈ spans → span.Holds row →
      span ∈ spans.filter fun span => span.1 ≠ span.2 := by
    intro span row mem holds
    unfold Holds at holds
    exact mem_filter.mpr ⟨mem, decide_eq_true (by omega)⟩
  constructor
  · intro partition
    refine ⟨fun row => ?_, fun one first two second row holds holds' =>
      partition.apart one (held first holds) two (held second holds') row holds holds'⟩
    rw [← partition.rows row]
    exact ⟨fun ⟨span, mem, holds⟩ => ⟨span, held mem holds, holds⟩,
      fun ⟨span, mem, holds⟩ => ⟨span, (mem_filter.mp mem).1, holds⟩⟩
  · intro partition
    refine ⟨fun row => ?_, fun one first two second =>
      partition.apart one (mem_filter.mp first).1 two (mem_filter.mp second).1⟩
    rw [← partition.rows row]
    exact ⟨fun ⟨span, mem, holds⟩ => ⟨span, (mem_filter.mp mem).1, holds⟩,
      fun ⟨span, mem, holds⟩ => ⟨span, held mem holds, holds⟩⟩

end Span

end TinyDSV41.Lib
