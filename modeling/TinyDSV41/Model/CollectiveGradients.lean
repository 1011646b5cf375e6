/-
**The gradients of the collectives.**

`backward` of `_AllGather` and of `_LeftHalo` is the adjoint of `forward`, over all ranks. A tensor is given by its
slices along the dimension, which is how `movedim(dim, 0)` lays it out; a slice has an entry for each index of the
other dimensions.

* `inner_flatMap`, `inner_stackSum`, `inner_addTail` — the inner product of what is joined and added.
* `all_gather_adjoint`, `left_halo_adjoint` — the two adjoints.
-/

import TinyDSV41.Model.ContextParallel
import Mathlib.Algebra.BigOperators.Fin

namespace TinyDSV41.Model.ContextParallel

open List Lib
open Finset (sum_add_distrib sum_congr)

variable {Rest R : Type} [Fintype Rest] [CommSemiring R]

def inner (first second : List (Rest → R)) : R :=
  (zipWith (fun one two => ∑ entry, one entry * two entry) first second).sum

omit [Fintype Rest] in
/-- `torch.stack(parts).sum(dim=0)`, of parts with a number of slices. -/
def stackSum (length : ℕ) (parts : List (List (Rest → R))) : List (Rest → R) :=
  parts.foldr (zipWith (· + ·)) (replicate length 0)

/-! ### `_AllGather` -/

section AllGather

variable {size : ℕ} {Item : Type}

/-- `_AllGather.forward`, on all ranks. -/
def allGather (tensors : Fin size → List Item) : Fin size → List Item :=
  fun _ => (finRange size).flatMap tensors

/-- `_AllGather.backward`, on all ranks. -/
def allGatherBackward (grads : Fin size → List (Rest → R)) : Option (Fin size → List (Rest → R)) := do
  let exchanged ← exchangeEven grads
  some fun rank =>
    let length := (exchanged rank).length / size
    stackSum length (pieces (replicate size length) (exchanged rank))

/-! ### `_LeftHalo` -/

/-- `_LeftHalo.forward`, on all ranks. -/
def haloForward (length : ℕ) (tensors : Fin size → List Item) : Option (Fin size → List Item) := do
  let prefixes ← ringExchange length fun rank => (tensors rank).drop ((tensors rank).length - length)
  some fun rank => if rank.val = 0 then tensors rank else prefixes rank ++ tensors rank

/-- `_ring_exchange` with the previous rank. -/
def ringReturn (length : ℕ) (tensors : Fin size → List Item) : Option (Fin size → List Item) :=
  exchange (fun rank => ringSplits size ((rank.val + 1) % size) length)
    (fun rank => ringSplits size ((rank.val + size - 1) % size) length) tensors

/-- `tensor.narrow(dim, n - length, length).add_(tail)` -/
def addTail (length : ℕ) (tensor tail : List (Rest → R)) : List (Rest → R) :=
  tensor.take (tensor.length - length) ++ zipWith (· + ·) (tensor.drop (tensor.length - length)) tail

/-- `_LeftHalo.backward`, on all ranks. -/
def haloBackward (length : ℕ) (grads : Fin size → List (Rest → R)) : Option (Fin size → List (Rest → R)) := do
  let received ← ringReturn length fun rank =>
    if rank.val = 0 then replicate length 0 else (grads rank).take length
  some fun rank =>
    let localGrad := if rank.val = 0 then grads rank else (grads rank).drop length
    if rank.val < size - 1 then addTail length localGrad (received rank) else localGrad

end AllGather

/-! ### The inner product -/

variable {first : List (Rest → R)}

theorem inner_append {second other rest : List (Rest → R)} (sized : first.length = other.length) :
    inner (first ++ second) (other ++ rest) = inner first other + inner second rest := by
  unfold inner
  rw [zipWith_append sized, sum_append]

theorem inner_flatMap {Index : Type} (indices : List Index) {first second : Index → List (Rest → R)}
    (sized : ∀ index, (first index).length = (second index).length) :
    inner (indices.flatMap first) (indices.flatMap second)
      = (indices.map fun index => inner (first index) (second index)).sum := by
  induction indices with
  | nil => rfl
  | cons index indices known =>
    rw [flatMap_cons, flatMap_cons, inner_append (sized index), known, map_cons, sum_cons]

theorem inner_zeros (first : List (Rest → R)) (length : ℕ) : inner first (replicate length 0) = 0 := by
  induction first generalizing length with
  | nil => rfl
  | cons slice first known =>
    cases length with
    | zero => rfl
    | succ length =>
      have later := known length
      unfold inner at later ⊢
      rw [replicate_succ, zipWith_cons_cons, sum_cons, later]
      simp

theorem inner_add {second other : List (Rest → R)} (sized : second.length = other.length) :
    inner first (zipWith (· + ·) second other) = inner first second + inner first other := by
  induction first generalizing second other with
  | nil => exact (add_zero 0).symm
  | cons slice first known =>
    cases second with
    | nil =>
      cases eq_nil_of_length_eq_zero sized.symm
      exact (add_zero 0).symm
    | cons one second =>
      obtain ⟨two, other, rfl⟩ := exists_cons_of_length_eq_add_one sized.symm
      have later := known (Nat.succ.inj sized)
      unfold inner at later ⊢
      simp only [zipWith_cons_cons, sum_cons, later, Pi.add_apply, mul_add, sum_add_distrib]
      ring

variable {parts : List (List (Rest → R))}

omit [Fintype Rest] in
theorem length_stackSum {length : ℕ} (sized : ∀ part ∈ parts, part.length = length) :
    (stackSum length parts).length = length := by
  induction parts with
  | nil => exact length_replicate
  | cons part parts known =>
    obtain ⟨here, later⟩ := forall_mem_cons.mp sized
    show (zipWith _ part (stackSum length parts)).length = length
    rw [length_zipWith, known later, here, Nat.min_self]

theorem inner_stackSum (first : List (Rest → R)) {length : ℕ}
    (sized : ∀ part ∈ parts, part.length = length) :
    inner first (stackSum length parts) = (parts.map (inner first)).sum := by
  induction parts with
  | nil => exact inner_zeros first length
  | cons part parts known =>
    obtain ⟨here, later⟩ := forall_mem_cons.mp sized
    show inner first (zipWith _ part (stackSum length parts)) = _
    rw [inner_add (here.trans (length_stackSum later).symm), known later, map_cons, sum_cons]

omit [Fintype Rest] in
theorem length_addTail {length : ℕ} {tensor tail : List (Rest → R)} (fits : length ≤ tensor.length)
    (sized : tail.length = length) : (addTail length tensor tail).length = tensor.length := by
  unfold addTail
  rw [length_append, length_take, length_zipWith, length_drop, sized]
  omega

theorem inner_addTail {length : ℕ} {tensor tail : List (Rest → R)} (same : first.length = tensor.length)
    (fits : length ≤ tensor.length) (sized : tail.length = length) :
    inner first (addTail length tensor tail) = inner first tensor + inner (first.drop (first.length - length)) tail := by
  have cut : (first.take (first.length - length)).length = (tensor.take (tensor.length - length)).length := by
    rw [length_take, length_take, same]
  calc inner first (addTail length tensor tail)
      = inner (first.take (first.length - length) ++ first.drop (first.length - length)) (addTail length tensor tail) := by
        rw [take_append_drop]
    _ = inner (first.take (first.length - length)) (tensor.take (tensor.length - length))
        + (inner (first.drop (first.length - length)) (tensor.drop (tensor.length - length))
          + inner (first.drop (first.length - length)) tail) := by
        rw [addTail, inner_append cut, inner_add (by rw [length_drop, sized]; omega)]
    _ = inner first tensor + inner (first.drop (first.length - length)) tail := by
        rw [← add_assoc, ← inner_append cut, take_append_drop, take_append_drop]

theorem sum_finRange {size : ℕ} (value : Fin size → R) : ((finRange size).map value).sum = ∑ rank, value rank :=
  (Fin.sum_univ_def value).symm

/-! ### The adjoints -/

variable {size length : ℕ} {tensors grads : Fin size → List (Rest → R)}

/-- **`_AllGather`**: of parts of one shape and any gradients of what is gathered, the inner products agree. -/
theorem all_gather_adjoint (shape : ∀ rank, (tensors rank).length = length)
    (upstream : ∀ rank, (grads rank).length = (allGather tensors rank).length) :
    ∃ back, allGatherBackward grads = some back ∧ (∀ rank, (back rank).length = length) ∧
      ∑ rank, inner (allGather tensors rank) (grads rank) = ∑ rank, inner (tensors rank) (back rank) := by
  have whole : ∀ rank, (grads rank).length = size * length := by
    intro rank
    rw [upstream, allGather, length_flatMap, map_congr_left fun rank _ => shape rank]
    simp
  have divides (rank : Fin size) : size ∣ (grads rank).length := ⟨length, whole rank⟩
  have quotient (rank : Fin size) : (grads rank).length / size = length := by
    rw [whole, Nat.mul_div_cancel_left _ (Nat.zero_lt_of_lt rank.2)]
  have sized (source rank : Fin size) : (partsOf size (grads source) rank).length = length :=
    (length_part rfl (divides source) rank.2).trans (quotient source)
  have lengths (rank : Fin size) : (((finRange size).map fun source => partsOf size (grads source) rank).map
      List.length) = replicate size length := by
    rw [map_map]
    refine eq_replicate_iff.mpr ⟨by simp, fun value mem => ?_⟩
    obtain ⟨source, -, rfl⟩ := mem_map.mp mem
    exact sized source rank
  have exchanged : exchangeEven grads = some fun rank =>
      ((finRange size).map fun source => partsOf size (grads source) rank).flatten := by
    have moved := exchange_segments fun source => partsOf size (grads source)
    simp only [sized, parts_flatten (divides _), flatMap_def] at moved
    unfold exchangeEven
    simp only [quotient]
    have same : (finRange size).map (fun _ => length) = replicate size length := by simp
    rw [← same]
    exact moved
  refine ⟨fun rank => stackSum length ((finRange size).map fun source => partsOf size (grads source) rank),
    ?_, fun rank => length_stackSum ?_, ?_⟩
  · refine Option.bind_eq_some_iff.mpr ⟨_, exchanged, congrArg some (funext fun rank => ?_)⟩
    have quotient' : ((finRange size).map fun source => partsOf size (grads source) rank).flatten.length / size
        = length := by
      rw [length_flatten, lengths, sum_replicate, smul_eq_mul,
        Nat.mul_div_cancel_left _ (Nat.zero_lt_of_lt rank.2)]
    dsimp only
    rw [quotient', ← lengths rank, pieces_flatten]
  · exact forall_mem_map.mpr fun source _ => sized source rank
  · calc ∑ rank, inner (allGather tensors rank) (grads rank)
        = ∑ rank, ∑ source, inner (tensors source) (partsOf size (grads rank) source) := by
          refine sum_congr rfl fun rank _ => ?_
          rw [← sum_finRange, ← inner_flatMap _ fun source => (shape source).trans (sized rank source).symm,
            parts_flatten (divides rank)]
          rfl
      _ = ∑ source, ∑ rank, inner (tensors source) (partsOf size (grads rank) source) := Finset.sum_comm
      _ = _ := by
          refine sum_congr rfl fun source _ => ?_
          rw [inner_stackSum _ (forall_mem_map.mpr fun rank _ => sized rank source), map_map, ← sum_finRange]
          rfl

theorem ringReturn_eq {Item : Type} {tails : Fin size → List Item} (sized : ∀ rank, (tails rank).length = length) :
    ringReturn length tails = some fun rank => tails (next rank) :=
  exchange_ring (fun rank other => (next_iff other rank).symm) sized

def ring : Fin size ≃ Fin size where
  toFun := next
  invFun := previous
  left_inv rank := ((next_iff rank (next rank)).mp rfl).symm
  right_inv rank := ((next_iff (previous rank) rank).mpr rfl).symm

/-- **`_LeftHalo`**: of a halo that no rank's part is shorter than and any gradients of what `forward` returns, the
inner products agree. -/
theorem left_halo_adjoint (fits : ∀ rank, length ≤ (tensors rank).length) :
    ∃ out, haloForward length tensors = some out ∧ ((∀ rank, (grads rank).length = (out rank).length) →
      ∃ back, haloBackward length grads = some back ∧ (∀ rank, (back rank).length = (tensors rank).length) ∧
        ∑ rank, inner (out rank) (grads rank) = ∑ rank, inner (tensors rank) (back rank)) := by
  let tail (rank : Fin size) := (tensors rank).drop ((tensors rank).length - length)
  have tails : ∀ rank, (tail rank).length = length := by
    intro rank
    rw [length_drop]
    have := fits rank
    omega
  refine ⟨_, Option.bind_eq_some_iff.mpr ⟨_, ringExchange_eq tails, rfl⟩, fun upstream => ?_⟩
  -- What is sent back, and what stays.
  let prefixGrad (rank : Fin size) := if rank.val = 0 then replicate length 0 else (grads rank).take length
  let localGrad (rank : Fin size) := if rank.val = 0 then grads rank else (grads rank).drop length
  have sizes : ∀ rank, (prefixGrad rank).length = length ∧ (localGrad rank).length = (tensors rank).length ∧
      inner (if rank.val = 0 then tensors rank else tail (previous rank) ++ tensors rank) (grads rank)
        = inner (tensors rank) (localGrad rank) + inner (tail (previous rank)) (prefixGrad rank) := by
    intro rank
    have sized := upstream rank
    dsimp only [prefixGrad, localGrad]
    by_cases first : rank.val = 0
    · simp only [if_pos first] at sized ⊢
      exact ⟨length_replicate, sized, by rw [inner_zeros, add_zero]⟩
    · simp only [if_neg first] at sized ⊢
      rw [length_append, tails] at sized
      have short : ((grads rank).take length).length = length := by
        rw [length_take]
        omega
      refine ⟨short, by rw [length_drop]; omega, ?_⟩
      rw [add_comm, ← inner_append ((tails _).trans short.symm), take_append_drop]
  refine ⟨_, Option.bind_eq_some_iff.mpr ⟨_, ringReturn_eq fun rank => (sizes rank).1, rfl⟩, ?_⟩
  -- The last rank adds nothing, and it would receive zeros.
  have back : ∀ rank, (if rank.val < size - 1 then addTail length (localGrad rank) (prefixGrad (next rank))
        else localGrad rank).length = (tensors rank).length ∧
      inner (tensors rank) (if rank.val < size - 1 then addTail length (localGrad rank) (prefixGrad (next rank))
        else localGrad rank) = inner (tensors rank) (localGrad rank) + inner (tail rank) (prefixGrad (next rank)) := by
    intro rank
    obtain ⟨-, stays, -⟩ := sizes rank
    have room : length ≤ (localGrad rank).length := (fits rank).trans_eq stays.symm
    split_ifs with before
    · exact ⟨(length_addTail room (sizes (next rank)).1).trans stays,
        inner_addTail stays.symm room (sizes (next rank)).1⟩
    · have last : (next rank).val = 0 := by
        show (rank.val + 1) % size = 0
        rw [show rank.val + 1 = size by omega, Nat.mod_self]
      refine ⟨stays, ?_⟩
      dsimp only [prefixGrad]
      rw [if_pos last, inner_zeros, add_zero]
  refine ⟨fun rank => (back rank).1, ?_⟩
  calc ∑ rank, inner (if rank.val = 0 then tensors rank else tail (previous rank) ++ tensors rank) (grads rank)
      = ∑ rank, inner (tensors rank) (localGrad rank) + ∑ rank, inner (tail (previous rank)) (prefixGrad rank) := by
        rw [← sum_add_distrib]
        exact sum_congr rfl fun rank _ => (sizes rank).2.2
    _ = ∑ rank, inner (tensors rank) (localGrad rank) + ∑ rank, inner (tail rank) (prefixGrad (next rank)) := by
        rw [← Equiv.sum_comp ring fun rank => inner (tail (previous rank)) (prefixGrad rank)]
        refine congrArg _ (sum_congr rfl fun rank _ => ?_)
        rw [show previous (ring rank) = rank from ring.left_inv rank]
        rfl
    _ = _ := by
        rw [← sum_add_distrib]
        exact sum_congr rfl fun rank _ => (back rank).2.symm

/-- **The collectives of context parallelism** have their adjoints as their gradients. -/
theorem collectives_adjoint (shape : ∀ rank, (tensors rank).length = length) {halo : ℕ} (fits : halo ≤ length)
    (gathered haloed : Fin size → List (Rest → R))
    (upstream : ∀ rank, (gathered rank).length = (allGather tensors rank).length) :
    (∃ back, allGatherBackward gathered = some back ∧ (∀ rank, (back rank).length = length) ∧
      ∑ rank, inner (allGather tensors rank) (gathered rank) = ∑ rank, inner (tensors rank) (back rank)) ∧
    ∃ out, haloForward halo tensors = some out ∧ ((∀ rank, (haloed rank).length = (out rank).length) →
      ∃ back, haloBackward halo haloed = some back ∧ (∀ rank, (back rank).length = (tensors rank).length) ∧
        ∑ rank, inner (out rank) (haloed rank) = ∑ rank, inner (tensors rank) (back rank)) :=
  ⟨all_gather_adjoint shape upstream, left_halo_adjoint fun rank => fits.trans_eq (shape rank).symm⟩

/-- Two ranks with two slices of one entry each, and a halo of one: both gradients. -/
theorem two_ranks_adjoint : ∃ out gathered haloed,
    haloForward 1 (fun rank : Fin 2 => [fun _ : Unit => (rank.val : ℤ), fun _ => 5]) = some out ∧
      allGatherBackward (fun _ : Fin 2 => replicate 4 fun _ : Unit => (1 : ℤ)) = some gathered ∧
      haloBackward 1 (fun rank : Fin 2 => replicate (2 + rank.val) fun _ : Unit => (1 : ℤ)) = some haloed ∧
      (∀ rank, (haloed rank).length = 2) ∧
      ∑ rank, inner (out rank) (replicate (2 + rank.val) fun _ => 1)
        = ∑ rank, inner [fun _ : Unit => (rank.val : ℤ), fun _ => 5] (haloed rank) := by
  have shape : ∀ rank : Fin 2, [fun _ : Unit => (rank.val : ℤ), fun _ => 5].length = 2 := fun _ => rfl
  have fits : 1 ≤ 2 := by decide
  obtain ⟨⟨gathered, gathers, -⟩, out, halos, adjoint⟩ :=
    collectives_adjoint shape fits (fun _ => replicate 4 fun _ => 1)
      (fun rank => replicate (2 + rank.val) fun _ => 1) fun _ => rfl
  have sized : ∀ rank : Fin 2, (replicate (2 + rank.val) fun _ : Unit => (1 : ℤ)).length = (out rank).length := by
    cases halos
    decide
  obtain ⟨haloed, back, lengths, same⟩ := adjoint sized
  exact ⟨out, gathered, haloed, halos, gathers, back, lengths, same⟩

end TinyDSV41.Model.ContextParallel
