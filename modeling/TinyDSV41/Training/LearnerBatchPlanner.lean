/-
**Microbatches of the learner from qualified shape cells.**

The responses are taken in the order of their lengths, each time by the cell that takes the most of
those in front.

* `planLearnerMicrobatches` — the checks, the order, and the loop over the cursor.
* `planFrom_greedy` — what the loop returns is a greedy plan.
* `learner_batches` — every response once, every batch within its cell, a plan whenever the lengths
  are covered, and no division into fitting batches with fewer of them.
-/

import TinyDSV41.Lib.Packing
import TinyDSV41.Lib.Checks
import TinyDSV41.Lib.Slices
import Mathlib.Data.List.GetD

namespace TinyDSV41.Training.LearnerBatchPlanner

open List Lib

structure Cell where
  maxBatchSize : ℤ
  maxModelInputTokens : ℤ
deriving DecidableEq

structure Microbatch where
  responseIndices : List ℕ
  qualifiedShapeCell : Option Cell
deriving DecidableEq

/-! ### The planner -/

/-- `input_lengths[index]`, of an index of the list. -/
def lengthAt (inputLengths : List ℤ) (index : ℕ) : ℤ := inputLengths.getD index 0

/-- The inner loop: how many responses from the cursor on a cell takes. -/
def countFrom (inputLengths : List ℤ) (cell : Cell) : ℕ → List ℕ → ℕ
  | count, [] => count
  | count, index :: rest =>
    if (count : ℤ) < cell.maxBatchSize ∧ lengthAt inputLengths index ≤ cell.maxModelInputTokens then
      countFrom inputLengths cell (count + 1) rest
    else count

/-- The cells that take a response, with how many they take. -/
def candidates (inputLengths : List ℤ) (shapes : List Cell) (rest : List ℕ) : List (ℕ × Cell) :=
  (shapes.map fun cell => (countFrom inputLengths cell 0 rest, cell)).filter fun row => row.1 ≠ 0

/-- A candidate has the smaller key: more responses, then the tighter token bound, then the smaller
batch. -/
def smaller (one two : ℕ × Cell) : Prop :=
  two.1 < one.1 ∨ one.1 = two.1 ∧ (one.2.maxModelInputTokens < two.2.maxModelInputTokens ∨
    one.2.maxModelInputTokens = two.2.maxModelInputTokens ∧ one.2.maxBatchSize < two.2.maxBatchSize)

instance (one two : ℕ × Cell) : Decidable (smaller one two) := inferInstanceAs (Decidable (_ ∨ _ ∧ (_ ∨ _ ∧ _)))

/-- `min(…, key=…)`: the first candidate with the smallest key. -/
def smallest : List (ℕ × Cell) → Option (ℕ × Cell)
  | [] => none
  | row :: rest => some (rest.foldl (fun best other => if smaller other best then other else best) row)

theorem smallest_some {rows : List (ℕ × Cell)} {best : ℕ × Cell} (chosen : smallest rows = some best) :
    best ∈ rows ∧ ∀ row ∈ rows, row.1 ≤ best.1 := by
  have folded : ∀ (rest : List (ℕ × Cell)) (first : ℕ × Cell),
      rest.foldl (fun best other => if smaller other best then other else best) first ∈ first :: rest ∧
        ∀ row ∈ first :: rest,
          row.1 ≤ (rest.foldl (fun best other => if smaller other best then other else best) first).1 := by
    intro rest
    induction rest with
    | nil =>
      exact fun first => ⟨mem_singleton_self first, fun row mem => by
        rw [mem_singleton.mp mem]
        rfl⟩
    | cons other rest known =>
      intro first
      rw [foldl_cons]
      obtain ⟨within, most⟩ := known (if smaller other first then other else first)
      have widest := most _ mem_cons_self
      by_cases less : smaller other first
      · rw [if_pos less] at within most widest ⊢
        refine ⟨mem_cons_of_mem _ within, forall_mem_cons.mpr ⟨le_trans ?_ widest, most⟩⟩
        rcases less with fewer | ⟨same, -⟩
        · exact fewer.le
        · exact same.ge
      · rw [if_neg less] at within most widest ⊢
        refine ⟨?_, forall_mem_cons.mpr ⟨widest, forall_mem_cons.mpr ⟨le_trans ?_ widest, ?_⟩⟩⟩
        · rcases mem_cons.mp within with same | later
          · rw [same]
            exact mem_cons_self
          · exact mem_cons_of_mem _ (mem_cons_of_mem _ later)
        · exact not_lt.mp fun more => less (Or.inl more)
        · exact fun row mem => most row (mem_cons_of_mem _ mem)
  cases rows with
  | nil => cases chosen
  | cons first rest =>
    cases chosen
    exact folded rest first

theorem candidates_positive {inputLengths : List ℤ} {shapes : List Cell} {rest : List ℕ} {row : ℕ × Cell}
    (chosen : smallest (candidates inputLengths shapes rest) = some row) : row.1 ≠ 0 :=
  of_decide_eq_true (mem_filter.mp (smallest_some chosen).1).2

/-- The outer loop, on the responses from the cursor on. -/
def planFrom (inputLengths : List ℤ) (shapes : List Cell) (rest : List ℕ) : Except String (List Microbatch) :=
  if _ : rest = [] then .ok []
  else
    match _ : smallest (candidates inputLengths shapes rest) with
    | none => .error "min() arg is an empty sequence"
    | some (count, cell) =>
      (planFrom inputLengths shapes (rest.drop count)).map (⟨rest.take count, some cell⟩ :: ·)
termination_by rest.length
decreasing_by
  have positive : count ≠ 0 := candidates_positive ‹_›
  have filled : rest.length ≠ 0 := fun empty => ‹¬ rest = []› (length_eq_zero_iff.mp empty)
  rw [length_drop]
  omega

/-- The responses in the order of their lengths, and among equal lengths of their indices. -/
def order (inputLengths : List ℤ) : List ℕ :=
  (range inputLengths.length).insertionSort fun one two =>
    lengthAt inputLengths one < lengthAt inputLengths two ∨
      lengthAt inputLengths one = lengthAt inputLengths two ∧ one ≤ two

/-- Consecutive responses, so many at a time. -/
def fixedPlan (fixedSize length : ℕ) : List Microbatch :=
  (range (sliceCount fixedSize length)).map fun index =>
    ⟨range' (index * fixedSize) (min (index * fixedSize + fixedSize) length - index * fixedSize), none⟩

/-- The physical batch and the lengths are within their bounds. -/
def Physical (inputLengths : List ℤ) (fixedSize : ℤ) : Prop :=
  (1 ≤ fixedSize ∧ fixedSize ≤ 32) ∧ inputLengths ≠ [] ∧ ∀ length ∈ inputLengths, 1 ≤ length ∧ length ≤ 2047

/-- There are cells, all of them within the bounds. -/
def Explicit (shapes : List Cell) : Prop :=
  shapes ≠ [] ∧ ∀ cell ∈ shapes, (1 ≤ cell.maxBatchSize ∧ cell.maxBatchSize ≤ 32) ∧
    1 ≤ cell.maxModelInputTokens ∧ cell.maxModelInputTokens ≤ 2047

def Covered (inputLengths : List ℤ) (shapes : List Cell) : Prop :=
  ∀ length ∈ inputLengths, ∃ cell ∈ shapes, length ≤ cell.maxModelInputTokens

instance (inputLengths : List ℤ) (fixedSize : ℤ) : Decidable (Physical inputLengths fixedSize) :=
  inferInstanceAs (Decidable
    ((_ ∧ _) ∧ inputLengths ≠ [] ∧ ∀ length ∈ inputLengths, 1 ≤ length ∧ length ≤ 2047))

instance (shapes : List Cell) : Decidable (Explicit shapes) :=
  inferInstanceAs (Decidable (shapes ≠ [] ∧ ∀ cell ∈ shapes, (_ ∧ _) ∧ _ ∧ _))

instance (inputLengths : List ℤ) (shapes : List Cell) : Decidable (Covered inputLengths shapes) :=
  inferInstanceAs (Decidable (∀ length ∈ inputLengths, ∃ cell ∈ shapes, length ≤ cell.maxModelInputTokens))

def planLearnerMicrobatches (inputLengths : List ℤ) (fixedSize : ℤ) (shapes : Option (List Cell)) :
    Except String (List Microbatch) :=
  if ¬ Physical inputLengths fixedSize then
    .error "learner planner requires physical B1..32 and nonempty input lengths1..2047"
  else
    match shapes with
    | none => .ok (fixedPlan fixedSize.toNat inputLengths.length)
    | some shapes =>
      if ¬ Explicit shapes then .error "learner planner requires explicit qualified B:T cells"
      else if ¬ Covered inputLengths shapes then
        .error "qualified learner batch shapes do not cover every actual response length"
      else planFrom inputLengths shapes (order inputLengths)

variable {inputLengths : List ℤ} {shapes : List Cell} {rest : List ℕ} {plan : List Microbatch} {cell : Cell}

/-! ### The loops -/

/-- A batch has no more responses than a cell allows, and no longer ones. -/
structure Cell.Fits (inputLengths : List ℤ) (cell : Cell) (batch : List ℕ) : Prop where
  size : (batch.length : ℤ) ≤ cell.maxBatchSize
  tokens : ∀ index ∈ batch, lengthAt inputLengths index ≤ cell.maxModelInputTokens

def Cell.bin (cell : Cell) : Bin ℤ := ⟨cell.maxBatchSize.toNat, cell.maxModelInputTokens⟩

theorem Cell.fits_iff (positive : 1 ≤ cell.maxBatchSize) {batch : List ℕ} :
    cell.Fits inputLengths batch ↔ cell.bin.Holds (lengthAt inputLengths) batch := by
  constructor
  · exact fun fits => ⟨by have := fits.size; unfold Cell.bin; dsimp only; omega, fits.tokens⟩
  · exact fun holds => ⟨by have := holds.width; unfold Cell.bin at this; dsimp only at this; omega, holds.bound⟩

theorem countFrom_eq (cell : Cell) (rest : List ℕ) :
    countFrom inputLengths cell 0 rest = cell.bin.takes (lengthAt inputLengths) rest := by
  have counted : ∀ (rest : List ℕ) (count : ℕ), countFrom inputLengths cell count rest
      = count + ((rest.take (cell.maxBatchSize.toNat - count)).takeWhile fun index =>
          lengthAt inputLengths index ≤ cell.maxModelInputTokens).length := by
    intro rest
    induction rest with
    | nil => exact fun count => by rw [take_nil]; rfl
    | cons index rest known =>
      intro count
      unfold countFrom
      by_cases room : (count : ℤ) < cell.maxBatchSize
      · rw [show cell.maxBatchSize.toNat - count = (cell.maxBatchSize.toNat - (count + 1)) + 1 by omega,
          take_succ_cons, takeWhile_cons]
        by_cases short : lengthAt inputLengths index ≤ cell.maxModelInputTokens
        · rw [if_pos ⟨room, short⟩, known, if_pos (decide_eq_true short), length_cons]
          omega
        · rw [if_neg fun both => short both.2, if_neg fun holds => short (of_decide_eq_true holds)]
          rfl
      · rw [if_neg fun both => room both.1, show cell.maxBatchSize.toNat - count = 0 by omega, take_zero]
        rfl
  rw [counted rest 0, Nat.zero_add, Nat.sub_zero]
  rfl

theorem chosen_widest {count : ℕ}
    (chosen : smallest (candidates inputLengths shapes rest) = some (count, cell)) :
    cell ∈ shapes ∧ count = cell.bin.takes (lengthAt inputLengths) rest ∧
      ∀ other ∈ shapes, other.bin.takes (lengthAt inputLengths) rest ≤ count := by
  obtain ⟨from_, most⟩ := smallest_some chosen
  obtain ⟨within, -⟩ := mem_filter.mp from_
  obtain ⟨cell, here, same⟩ := mem_map.mp within
  cases same
  refine ⟨here, countFrom_eq cell rest, fun other mem => ?_⟩
  rw [← countFrom_eq]
  by_cases nothing : countFrom inputLengths other 0 rest = 0
  · rw [nothing]
    exact Nat.zero_le _
  · have candidate : (countFrom inputLengths other 0 rest, other) ∈ candidates inputLengths shapes rest :=
      mem_filter.mpr ⟨mem_map_of_mem mem, decide_eq_true nothing⟩
    exact most _ candidate

/-- **What the loop returns is a greedy plan of the responses from the cursor on.** -/
theorem planFrom_greedy (planned : planFrom inputLengths shapes rest = .ok plan) :
    Greedy (lengthAt inputLengths) (shapes.map Cell.bin) rest (plan.map Microbatch.responseIndices) ∧
      ∀ batch ∈ plan, ∃ cell ∈ shapes, batch.qualifiedShapeCell = some cell ∧
        cell.bin.Holds (lengthAt inputLengths) batch.responseIndices := by
  induction rest using planFrom.induct inputLengths shapes generalizing plan with
  | case1 =>
    unfold planFrom at planned
    cases planned
    exact ⟨.nil, nofun⟩
  | case2 rest pending chosen =>
    unfold planFrom at planned
    rw [dif_neg pending, chosen] at planned
    cases planned
  | case3 rest pending count cell chosen known =>
    obtain ⟨here, taken, widest⟩ := chosen_widest chosen
    have positive : count ≠ 0 := candidates_positive chosen
    unfold planFrom at planned
    rw [dif_neg pending, chosen] at planned
    obtain ⟨others, later, rfl⟩ := map_eq_ok.mp planned
    obtain ⟨greedy, fits⟩ := known later
    have filled : rest.take count ≠ [] := fun empty =>
      (take_eq_nil_iff.mp empty).elim positive pending
    have long : (rest.take count).length = count := by
      rw [length_take, taken]
      exact min_eq_left (cell.bin.takes_le rest)
    refine ⟨?_, forall_mem_cons.mpr ⟨⟨cell, here, rfl, ?_⟩, fits⟩⟩
    · have wide : ∀ bin ∈ shapes.map Cell.bin,
          bin.takes (lengthAt inputLengths) (rest.take count ++ rest.drop count)
            ≤ (rest.take count).length := by
        rw [take_append_drop, long]
        exact forall_mem_map.mpr widest
      have step := Greedy.cons filled wide greedy
      rw [take_append_drop] at step
      exact step
    · rw [taken]
      exact cell.bin.takes_holds rest

/-- The loop returns if every length is within a cell. -/
theorem planFrom_total (positive : ∀ cell ∈ shapes, 1 ≤ cell.maxBatchSize)
    (covered : ∀ index ∈ rest, ∃ cell ∈ shapes, lengthAt inputLengths index ≤ cell.maxModelInputTokens) :
    ∃ plan, planFrom inputLengths shapes rest = .ok plan := by
  induction rest using planFrom.induct inputLengths shapes with
  | case1 =>
    unfold planFrom
    exact ⟨[], dif_pos rfl⟩
  | case2 rest pending chosen =>
    exfalso
    obtain ⟨index, others, rfl⟩ := exists_cons_of_ne_nil pending
    obtain ⟨cell, here, short⟩ := covered index mem_cons_self
    have holds : cell.bin.Holds (lengthAt inputLengths) [index] :=
      (Cell.fits_iff (positive cell here)).mp
        ⟨positive cell here, fun other mem => by rw [mem_singleton.mp mem]; exact short⟩
    have taken := holds.takes others
    rw [singleton_append, ← countFrom_eq] at taken
    have candidate : (countFrom inputLengths cell 0 (index :: others), cell)
        ∈ candidates inputLengths shapes (index :: others) :=
      mem_filter.mpr ⟨mem_map_of_mem here, decide_eq_true (Nat.one_le_iff_ne_zero.mp taken)⟩
    cases rows : candidates inputLengths shapes (index :: others) with
    | nil =>
      rw [rows] at candidate
      cases candidate
    | cons row rows' =>
      rw [rows] at chosen
      cases chosen
  | case3 rest pending count cell chosen known =>
    obtain ⟨others, later⟩ := known fun index mem => covered index (mem_of_mem_drop mem)
    unfold planFrom
    rw [dif_neg pending, chosen]
    exact ⟨_, map_eq_ok.mpr ⟨others, later, rfl⟩⟩

/-! ### The order -/

theorem order_perm (inputLengths : List ℤ) : (order inputLengths).Perm (range inputLengths.length) :=
  perm_insertionSort _ _

theorem order_sorted (inputLengths : List ℤ) : (order inputLengths).Pairwise fun one two =>
    lengthAt inputLengths one ≤ lengthAt inputLengths two := by
  let earlier : ℕ → ℕ → Prop := fun one two => lengthAt inputLengths one < lengthAt inputLengths two ∨
    lengthAt inputLengths one = lengthAt inputLengths two ∧ one ≤ two
  have : Std.Total earlier := ⟨fun one two => by unfold earlier; omega⟩
  have : IsTrans ℕ earlier := ⟨fun one two three first second => by unfold earlier at *; omega⟩
  have sorted : (order inputLengths).Pairwise earlier :=
    pairwise_insertionSort earlier (range inputLengths.length)
  exact sorted.imp fun {one two} before => by unfold earlier at before; omega

theorem lengthAt_mem {index : ℕ} (inside : index < inputLengths.length) :
    lengthAt inputLengths index ∈ inputLengths := by
  unfold lengthAt
  rw [getD_eq_getElem _ _ inside]
  exact getElem_mem inside

/-! ### The plan -/

/-- Every response is in one batch, once. -/
def Once (inputLengths : List ℤ) (plan : List Microbatch) : Prop :=
  (plan.flatMap Microbatch.responseIndices).Perm (range inputLengths.length)

/-- The responses are divided into batches, each of which fits a cell. -/
structure Division (inputLengths : List ℤ) (shapes : List Cell) (batches : List (List ℕ)) : Prop where
  once : batches.flatten.Perm (range inputLengths.length)
  fits : ∀ batch ∈ batches, ∃ cell ∈ shapes, cell.Fits inputLengths batch

/-- What a plan with cells is: every response once, each batch within the cell it names, and as few
batches as any division of the responses has. -/
structure Packed (inputLengths : List ℤ) (shapes : List Cell) (plan : List Microbatch) : Prop where
  once : Once inputLengths plan
  fits : ∀ batch ∈ plan, ∃ cell ∈ shapes, batch.qualifiedShapeCell = some cell ∧
    cell.Fits inputLengths batch.responseIndices
  least : ∀ batches, Division inputLengths shapes batches → plan.length ≤ batches.length

theorem planFrom_packed (explicit : Explicit shapes)
    (planned : planFrom inputLengths shapes (order inputLengths) = .ok plan) :
    Packed inputLengths shapes plan := by
  obtain ⟨greedy, fits⟩ := planFrom_greedy planned
  have positive : ∀ cell ∈ shapes, 1 ≤ cell.maxBatchSize := fun cell here => (explicit.2 cell here).1.1
  refine ⟨?_, fun batch mem => ?_, fun batches division => ?_⟩
  · unfold Once
    rw [flatMap_def, greedy.flatten]
    exact order_perm inputLengths
  · obtain ⟨cell, here, named, holds⟩ := fits batch mem
    exact ⟨cell, here, named, (Cell.fits_iff (positive cell here)).mpr holds⟩
  · have least := greedy_minimal (order_sorted inputLengths) greedy
      (division.once.trans (order_perm inputLengths).symm) fun batch mem => by
        obtain ⟨cell, here, fits⟩ := division.fits batch mem
        exact ⟨cell.bin, mem_map_of_mem here, (Cell.fits_iff (positive cell here)).mp fits⟩
    rw [length_map] at least
    exact least

theorem fixedPlan_once {fixedSize length : ℕ} (positive : 0 < fixedSize) :
    (fixedPlan fixedSize length).flatMap Microbatch.responseIndices = range length := by
  have sliced : ∀ index, range' (index * fixedSize)
      (min (index * fixedSize + fixedSize) length - index * fixedSize)
        = slice fixedSize (range length) index := by
    intro index
    unfold slice
    refine ext_getElem ?_ fun place _ _ => ?_
    · rw [length_range', length_take, length_drop, length_range]
      omega
    · rw [getElem_range', getElem_take, getElem_drop, getElem_range, Nat.one_mul]
  unfold fixedPlan
  rw [flatMap_map]
  rw [flatMap_congr fun index _ => sliced index]
  have whole := flatMap_slice_count positive (range length)
  rw [length_range] at whole
  exact whole

/-- **The plan covers every response once, within its cells, and no division of the responses into
batches that fit has fewer of them.** There is one exactly if the inputs are within their bounds and
every length is covered. -/
theorem learner_batches (inputLengths : List ℤ) (fixedSize : ℤ) (shapes : List Cell) :
    (∀ plan, planLearnerMicrobatches inputLengths fixedSize (some shapes) = .ok plan →
      Packed inputLengths shapes plan) ∧
    ((∃ plan, planLearnerMicrobatches inputLengths fixedSize (some shapes) = .ok plan) ↔
      Physical inputLengths fixedSize ∧ Explicit shapes ∧ Covered inputLengths shapes) ∧
    (∀ plan, planLearnerMicrobatches inputLengths fixedSize none = .ok plan → Once inputLengths plan) := by
  unfold planLearnerMicrobatches
  by_cases physical : Physical inputLengths fixedSize
  · rw [if_neg (not_not.mpr physical), if_neg (not_not.mpr physical)]
    dsimp only
    refine ⟨?_, ?_, ?_⟩
    · intro plan planned
      split_ifs at planned with explicit covered
      exact planFrom_packed explicit planned
    · constructor
      · rintro ⟨plan, planned⟩
        split_ifs at planned with explicit covered
        exact ⟨physical, explicit, covered⟩
      · rintro ⟨-, explicit, covered⟩
        rw [if_neg (not_not.mpr explicit), if_neg (not_not.mpr covered)]
        refine planFrom_total (fun cell here => (explicit.2 cell here).1.1) fun index member => ?_
        exact covered _ (lengthAt_mem (mem_range.mp ((order_perm inputLengths).mem_iff.mp member)))
    · intro plan planned
      cases planned
      unfold Once
      rw [fixedPlan_once (by have := physical.1.1; omega)]
  · rw [if_pos physical, if_pos physical]
    refine ⟨fun _ planned => ?_, ⟨fun ⟨_, planned⟩ => ?_, fun held => absurd held.1 physical⟩,
      fun _ planned => ?_⟩
    all_goals cases planned

end TinyDSV41.Training.LearnerBatchPlanner
