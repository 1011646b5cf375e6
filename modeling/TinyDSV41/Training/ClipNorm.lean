/-
**One norm for sparse and dense gradients.**

`_clip_sparse_grad_norm` sums the repeated rows of a sparse gradient, takes a norm of every tensor, one of these
for each device, and one over the devices. What it scales is what `torch.nn.utils.clip_grad_norm_` scales of the
dense gradients.

* `total_eq` — the norm of the norms is the norm of all entries.
* `energy_coalesce` — summed rows and the dense gradient have the same squares.
* `clip_sparse_grad_norm` — clipping, and then the dense gradients, or the other way round.
-/

import Mathlib.Algebra.BigOperators.Fin
import Mathlib.Algebra.Order.Monoid.Unbundled.WithTop
import Mathlib.Analysis.Real.Sqrt

namespace TinyDSV41.Training

open List

/-- A number in exact arithmetic; `⊤` stands for those that are not finite. -/
abbrev Scalar := WithTop ℝ

noncomputable section

def square (number : Scalar) : Scalar := number.map (· ^ 2)

def energy (values : List Scalar) : Scalar := (values.map square).sum

/-- `torch.linalg.vector_norm` -/
def vectorNorm (values : List Scalar) : Scalar := (energy values).map Real.sqrt

variable {rows width : ℕ}

/-- `parameter.grad`; a sparse gradient lists rows with their indices, also repeatedly. -/
inductive Gradient (rows width : ℕ)
  | dense (values : Fin rows → Fin width → Scalar)
  | sparse (entries : List (Fin rows × (Fin width → Scalar)))

def rowSum (entries : List (Fin rows × (Fin width → Scalar))) (row : Fin rows) : Fin width → Scalar :=
  ((entries.filter fun entry => entry.1 = row).map Prod.snd).sum

/-- `coalesce()` -/
def coalesce (entries : List (Fin rows × (Fin width → Scalar))) : List (Fin rows × (Fin width → Scalar)) :=
  ((finRange rows).filter fun row => row ∈ entries.map Prod.fst).map fun row => (row, rowSum entries row)

namespace Gradient

/-- `to_dense()` -/
def toDense : Gradient rows width → Fin rows → Fin width → Scalar
  | .dense values => values
  | .sparse entries => rowSum entries

/-- What the norm of a gradient is taken of. -/
def values : Gradient rows width → List Scalar
  | .dense values => (finRange rows).flatMap fun row => ofFn (values row)
  | .sparse entries => (coalesce entries).flatMap fun entry => ofFn entry.2

/-- `values.mul_(coefficient)`: in place, or in the rows that replace a sparse gradient. -/
def mul (coefficient : ℝ) : Gradient rows width → Gradient rows width
  | .dense values => .dense fun row column => (values row column).map (coefficient * ·)
  | .sparse entries =>
    .sparse ((coalesce entries).map fun entry => (entry.1, fun column => (entry.2 column).map (coefficient * ·)))

end Gradient

variable {Device : Type}

structure Parameter (Device : Type) where
  device : Device
  rows : ℕ
  width : ℕ
  grad : Option (Gradient rows width)

def Parameter.values (parameter : Parameter Device) : List Scalar := (parameter.grad.map Gradient.values).getD []

def Parameter.mul (coefficient : ℝ) (parameter : Parameter Device) : Parameter Device :=
  { parameter with grad := parameter.grad.map (Gradient.mul coefficient) }

/-- The parameter with its gradient as a dense tensor. -/
def Parameter.densified (parameter : Parameter Device) : Parameter Device :=
  { parameter with grad := parameter.grad.map fun gradient => .dense gradient.toDense }

variable [DecidableEq Device]

/-- `norms.setdefault(device, []).append(norm)` -/
def addNorm (device : Device) (norm : Scalar) : List (Device × List Scalar) → List (Device × List Scalar)
  | [] => [(device, [norm])]
  | group :: norms =>
    if group.1 = device then (device, group.2 ++ [norm]) :: norms else group :: addNorm device norm norms

def deviceNorms (parameters : List (Parameter Device)) : List Scalar :=
  (parameters.foldl (fun norms parameter => match parameter.grad with
    | none => norms
    | some gradient => addNorm parameter.device (vectorNorm gradient.values) norms) []).map fun group =>
      vectorNorm group.2

/-- `min(1.0, max_norm / (float(norm) + 1e-6))` -/
def clipCoefficient (maxNorm norm : ℝ) : ℝ := min 1 (maxNorm / (norm + 1 / 10 ^ 6))

/-- `_clip_sparse_grad_norm`: what it returns or raises, and the parameters behind it. -/
def clipSparseGradNorm (parameters : List (Parameter Device)) (maxNorm : ℝ) :
    Except String ℝ × List (Parameter Device) :=
  let norms := deviceNorms parameters
  match if norms = [] then 0 else vectorNorm norms with
  | none => (.error "non-finite RL gradient norm; optimizer step was not applied", parameters)
  | some norm => (.ok norm, parameters.map (Parameter.mul (clipCoefficient maxNorm norm)))

/-- `torch.nn.utils.clip_grad_norm_` with `error_if_nonfinite`: one norm of all entries, and
`torch.clamp(max_norm / (total_norm + 1e-6), max=1.0)`. -/
def clipGradNorm (parameters : List (Parameter Device)) (maxNorm : ℝ) :
    Except String ℝ × List (Parameter Device) :=
  match vectorNorm (parameters.flatMap Parameter.values) with
  | none => (.error "non-finite RL gradient norm; optimizer step was not applied", parameters)
  | some norm => (.ok norm, parameters.map (Parameter.mul (min (maxNorm / (norm + 1 / 10 ^ 6)) 1)))

/-! ### Norms of norms -/

theorem energy_append (first second : List Scalar) : energy (first ++ second) = energy first + energy second := by
  rw [energy, map_append, sum_append]
  rfl

theorem energy_nonneg (values : List Scalar) : 0 ≤ energy values := by
  refine sum_nonneg fun number mem => ?_
  obtain ⟨value, -, rfl⟩ := mem_map.mp mem
  cases value with
  | none => exact le_top
  | some value => exact WithTop.coe_nonneg.mpr (sq_nonneg value)

theorem square_vectorNorm (values : List Scalar) : square (vectorNorm values) = energy values := by
  have positive := energy_nonneg values
  unfold vectorNorm
  cases total : energy values with
  | none => rfl
  | some number =>
    rw [total] at positive
    exact congrArg WithTop.some (Real.sq_sqrt (WithTop.coe_nonneg.mp positive))

variable {parameters : List (Parameter Device)}

theorem energy_addNorm (device : Device) (norm : Scalar) (norms : List (Device × List Scalar)) :
    energy ((addNorm device norm norms).map fun group => vectorNorm group.2)
      = energy (norms.map fun group => vectorNorm group.2) + square norm := by
  induction norms with
  | nil => simp [addNorm, energy, square_vectorNorm]
  | cons group norms known =>
    unfold addNorm
    split_ifs
    · simp only [energy, map_cons, sum_cons, map_map, square_vectorNorm, map_append, sum_append, map_nil, sum_nil,
        add_zero]
      exact add_right_comm _ _ _
    · simp only [map_cons, energy, sum_cons] at known ⊢
      rw [known, add_assoc]

/-- **The norm over the devices is that of all values.** -/
theorem total_eq (parameters : List (Parameter Device)) :
    vectorNorm (deviceNorms parameters) = vectorNorm (parameters.flatMap Parameter.values) := by
  have gathered : ∀ norms : List (Device × List Scalar), energy ((parameters.foldl (fun norms parameter =>
      match parameter.grad with
      | none => norms
      | some gradient => addNorm parameter.device (vectorNorm gradient.values) norms) norms).map fun group =>
        vectorNorm group.2) = energy (norms.map fun group => vectorNorm group.2)
          + energy (parameters.flatMap Parameter.values) := by
    induction parameters with
    | nil => exact fun norms => (add_zero _).symm
    | cons parameter parameters known =>
      intro norms
      rw [foldl_cons, known, flatMap_cons, energy_append, ← add_assoc]
      unfold Parameter.values
      cases parameter.grad with
      | none => exact congrArg (· + _) (add_zero _).symm
      | some gradient => rw [energy_addNorm, square_vectorNorm]; rfl
  exact congrArg (WithTop.map Real.sqrt) ((gathered []).trans (zero_add _))

/-! ### Summed rows -/

theorem rowSum_absent {entries : List (Fin rows × (Fin width → Scalar))} {row : Fin rows}
    (absent : row ∉ entries.map Prod.fst) : rowSum entries row = 0 := by
  have none_ : entries.filter (fun entry => entry.1 = row) = [] := filter_eq_nil_iff.mpr fun entry mem same =>
    absent (mem_map.mpr ⟨entry, mem, of_decide_eq_true same⟩)
  rw [rowSum, none_]
  rfl

/-- Rows without entries add nothing to the squares. -/
theorem energy_coalesce (gradient : Gradient rows width) :
    energy gradient.values = energy (Gradient.values (.dense gradient.toDense)) := by
  cases gradient with
  | dense values => rfl
  | sparse entries =>
    simp only [Gradient.values, Gradient.toDense, coalesce, flatMap_map]
    induction finRange rows with
    | nil => rfl
    | cons row others known =>
      rw [flatMap_cons, energy_append, filter_cons]
      split_ifs with present
      · rw [flatMap_cons, energy_append, known]
      · have empty : energy (ofFn (rowSum entries row)) = 0 := by
          rw [rowSum_absent fun mem => present (decide_eq_true mem), energy, map_ofFn, sum_ofFn]
          exact Finset.sum_eq_zero fun column _ => congrArg WithTop.some (zero_pow two_ne_zero)
        rw [known, empty, zero_add]

theorem rowSum_map {indices : List (Fin rows)} (distinct : indices.Nodup) (value : Fin rows → Fin width → Scalar)
    (row : Fin rows) : rowSum (indices.map fun row => (row, value row)) row = if row ∈ indices then value row else 0 := by
  have found : indices.filter (fun other => other = row) = replicate (if row ∈ indices then 1 else 0) row := by
    rw [← distinct.count]
    exact filter_eq _
  unfold rowSum
  rw [filter_map, map_map]
  change ((indices.filter fun other => other = row).map value).sum = _
  rw [found]
  split_ifs
  · exact add_zero _
  · rfl

/-- **The scaled rows are those of the scaled dense gradient.** -/
theorem toDense_mul (coefficient : ℝ) (gradient : Gradient rows width) :
    (gradient.mul coefficient).toDense
      = fun row column => (gradient.toDense row column).map (coefficient * ·) := by
  cases gradient with
  | dense values => rfl
  | sparse entries =>
    funext row column
    simp only [Gradient.mul, Gradient.toDense, coalesce, map_map, Function.comp_def]
    rw [rowSum_map ((nodup_finRange rows).filter _)]
    split_ifs with present
    · rfl
    · rw [rowSum_absent fun mem => present (by simpa using mem)]
      exact congrArg WithTop.some (mul_zero coefficient).symm

omit [DecidableEq Device] in
theorem densified_mul (coefficient : ℝ) (parameter : Parameter Device) :
    (parameter.mul coefficient).densified = parameter.densified.mul coefficient := by
  unfold Parameter.mul Parameter.densified
  cases parameter.grad with
  | none => rfl
  | some gradient =>
    simp only [Option.map_some, toDense_mul]
    rfl

omit [DecidableEq Device] in
theorem vectorNorm_densified (parameters : List (Parameter Device)) :
    vectorNorm ((parameters.map Parameter.densified).flatMap Parameter.values)
      = vectorNorm (parameters.flatMap Parameter.values) := by
  refine congrArg (WithTop.map Real.sqrt) ?_
  induction parameters with
  | nil => rfl
  | cons parameter parameters known =>
    rw [map_cons, flatMap_cons, flatMap_cons, energy_append, energy_append, known]
    refine congrArg (· + _) ?_
    unfold Parameter.values Parameter.densified
    cases parameter.grad with
    | none => rfl
    | some gradient => exact (energy_coalesce gradient).symm

/-- **Sparse and dense gradients are clipped as dense gradients by their joint norm.** -/
theorem clip_sparse_grad_norm (parameters : List (Parameter Device)) (maxNorm : ℝ) :
    ((clipSparseGradNorm parameters maxNorm).1, (clipSparseGradNorm parameters maxNorm).2.map Parameter.densified)
      = clipGradNorm (parameters.map Parameter.densified) maxNorm := by
  have joint : (if deviceNorms parameters = [] then 0 else vectorNorm (deviceNorms parameters))
      = vectorNorm ((parameters.map Parameter.densified).flatMap Parameter.values) := by
    rw [vectorNorm_densified, ← total_eq]
    split_ifs with none_
    · rw [none_]
      exact congrArg WithTop.some Real.sqrt_zero.symm
    · rfl
  unfold clipSparseGradNorm clipGradNorm
  dsimp only
  rw [joint]
  split
  · rfl
  · rw [map_map, map_map, min_comm]
    exact congrArg _ (map_congr_left fun parameter _ => densified_mul _ parameter)

end

end TinyDSV41.Training
