/-
**Tokens and the experts they are routed to.**

* `Routing` — the hidden rows, expert ids and weights of a rank.
* `Routing.assignments` — one assignment for each token and slot.
* `ExpertMesh` — the experts of the ranks.
-/

import TinyDSV41.Lib.Exchange
import TinyDSV41.Lib.Slices

namespace TinyDSV41.Dispatch

open List Lib

/-- An expert for a token, with its weight in the token's sum. -/
structure Assignment (Row Weight : Type) where
  expert : ℤ
  hidden : Row
  weight : Weight

/-- The tensors of a rank: a hidden row for each token, and an expert and a weight for each token and
slot. -/
structure Routing (Row Weight : Type) where
  topk : ℕ
  hidden : List Row
  expertIds : List (List ℤ)
  weights : List (List Weight)
  routed : 0 < topk
  idRows : expertIds.length = hidden.length
  weightRows : weights.length = hidden.length
  idSlots : ∀ slots ∈ expertIds, slots.length = topk
  weightSlots : ∀ slots ∈ weights, slots.length = topk

variable {Row Weight : Type} {size : ℕ}

namespace Routing

variable (routing : Routing Row Weight)

def tokenCount : ℕ := routing.hidden.length

/-- `expert_ids.reshape(-1)` -/
def flatIds : List ℤ := routing.expertIds.flatten

/-- `weights.reshape(-1)` -/
def flatWeights : List Weight := routing.weights.flatten

/-- `hidden[:, None, :].expand(-1, topk, -1).reshape(-1, hidden.shape[-1])` -/
def expanded : List Row := routing.hidden.flatMap (replicate routing.topk)

def assignments : List (Assignment Row Weight) :=
  (routing.flatIds.zip (routing.expanded.zip routing.flatWeights)).map fun entry =>
    ⟨entry.1, entry.2.1, entry.2.2⟩

/-- The tokens are routed to experts there are. -/
def Valid (numExperts : ℕ) : Prop := ∀ id ∈ routing.flatIds, 0 ≤ id ∧ id < numExperts

theorem length_flatIds : routing.flatIds.length = routing.tokenCount * routing.topk := by
  unfold flatIds tokenCount
  rw [length_flatten_each routing.idSlots, routing.idRows]

theorem length_flatWeights : routing.flatWeights.length = routing.tokenCount * routing.topk := by
  unfold flatWeights tokenCount
  rw [length_flatten_each routing.weightSlots, routing.weightRows]

theorem length_expanded : routing.expanded.length = routing.tokenCount * routing.topk := by
  unfold expanded tokenCount
  rw [flatMap_def, length_flatten_each (forall_mem_map.mpr fun row _ => length_replicate), length_map]

theorem length_pairs : (routing.expanded.zip routing.flatWeights).length = routing.tokenCount * routing.topk := by
  rw [length_zip, length_expanded, length_flatWeights, min_self]

theorem assignments_expert : routing.assignments.map Assignment.expert = routing.flatIds := by
  unfold assignments
  rw [map_map]
  exact map_fst_zip (by rw [length_flatIds, length_pairs])

theorem assignments_pairs : routing.assignments.map (fun assignment => (assignment.hidden, assignment.weight))
    = routing.expanded.zip routing.flatWeights := by
  unfold assignments
  rw [map_map]
  exact map_snd_zip (by rw [length_flatIds, length_pairs])

theorem assignments_hidden : routing.assignments.map Assignment.hidden = routing.expanded := by
  have pairs := congrArg (map Prod.fst) routing.assignments_pairs
  rw [map_map, map_fst_zip (by rw [length_expanded, length_flatWeights])] at pairs
  exact pairs

theorem assignments_weight : routing.assignments.map Assignment.weight = routing.flatWeights := by
  have pairs := congrArg (map Prod.snd) routing.assignments_pairs
  rw [map_map, map_snd_zip (by rw [length_expanded, length_flatWeights])] at pairs
  exact pairs

theorem length_assignments : routing.assignments.length = routing.tokenCount * routing.topk := by
  rw [← length_flatIds, ← assignments_expert, length_map]

end Routing

def tokenSums [AddMonoid Row] (tokenCount topk : ℕ) (rows : List Row) : List Row :=
  (range tokenCount).map fun token => (slice topk rows token).sum

/-! ### Experts -/

/-- Experts that are divided evenly among the ranks; `expert_range` refuses others. -/
structure ExpertMesh (size : ℕ) where
  numExperts : ℕ
  positive : 0 < numExperts
  divides : size ∣ numExperts

namespace ExpertMesh

variable (mesh : ExpertMesh size) {rank : Fin size} {id : ℤ}

def localExperts : ℕ := mesh.numExperts / size

def start (rank : ℕ) : ℕ := rank * mesh.localExperts

def ownerOf (id : ℤ) : ℤ := id / mesh.localExperts

variable {mesh}

theorem experts_eq : size * mesh.localExperts = mesh.numExperts := Nat.mul_div_cancel' mesh.divides

theorem localExperts_pos : 0 < mesh.localExperts :=
  Nat.pos_of_ne_zero fun none_ => by
    have whole : size * mesh.localExperts = mesh.numExperts := experts_eq
    rw [none_, Nat.mul_zero] at whole
    exact absurd mesh.positive (by omega)

theorem ownerOf_iff {rank : ℕ} : mesh.ownerOf id = rank ↔
    (mesh.start rank : ℤ) ≤ id ∧ id < mesh.start rank + mesh.localExperts := by
  have positive : (0 : ℤ) < mesh.localExperts := Int.ofNat_lt.mpr localExperts_pos
  unfold ownerOf start
  rw [ediv_eq_iff positive]
  push_cast
  rw [add_mul, one_mul]

theorem ownerOf_range (low : 0 ≤ id) (high : id < mesh.numExperts) :
    0 ≤ mesh.ownerOf id ∧ mesh.ownerOf id < size := by
  have positive : (0 : ℤ) < mesh.localExperts := Int.ofNat_lt.mpr localExperts_pos
  refine ⟨Int.ediv_nonneg low positive.le, Int.ediv_lt_of_lt_mul positive ?_⟩
  have whole : ((size * mesh.localExperts : ℕ) : ℤ) = mesh.numExperts := by rw [experts_eq]
  push_cast at whole
  rw [whole]
  exact high

end ExpertMesh

end TinyDSV41.Dispatch
