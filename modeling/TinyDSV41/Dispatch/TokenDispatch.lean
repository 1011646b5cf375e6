/-
**Assignments moved to the ranks that own their experts.**

* `TokenDispatcher.run` — dispatch, the experts and combine on one rank that has all experts.
* `AllToAll.dispatch`, `AllToAll.combine` — the same with the experts divided among the ranks.
* `dispatch_arrives` — the experts of a rank receive exactly the assignments that name them.
* `all_to_all` — each rank ends with what it would have computed alone. On a rank without tokens both
  end in an error: the last dimension of a view of no elements cannot be inferred.
-/

import TinyDSV41.Dispatch.Basic

namespace TinyDSV41.Dispatch

open List Lib Assignment Routing
open Option (bind_eq_some_iff)

variable {Row Weight : Type} {size : ℕ}

/-- What an expert makes of a row and its weight. -/
abbrev Experts (Row Weight : Type) := ℤ → Row → Weight → Row

variable (experts : Experts Row Weight)

/-- Every row is given to the expert of its id, the ids counted from the first expert of the rank. -/
def applyExperts (experts : Experts Row Weight) (start : ℕ) (rows : List Row) (ids : List ℤ)
    (weights : List Weight) : List Row :=
  (ids.zip (rows.zip weights)).map fun entry => experts (start + entry.1) entry.2.1 entry.2.2

/-- `hidden.view(token_count, topk, -1).sum(dim=1)`. Without elements the last dimension is ambiguous, and
other numbers of rows would be rows of another width. -/
def viewSum [AddMonoid Row] (tokenCount topk : ℕ) (rows : List Row) : Except String (List Row) :=
  if tokenCount * topk = 0 then .error "the unspecified dimension size -1 can be any value and is ambiguous"
  else if rows.length ≠ tokenCount * topk then .error "shape is invalid for input of this size"
  else .ok (tokenSums tokenCount topk rows)

namespace TokenDispatcher

variable [AddMonoid Row] (experts : Experts Row Weight) (routing : Routing Row Weight)

/-- `TokenDispatcher.dispatch` -/
def dispatch : List Row × List ℤ × List Weight := (routing.expanded, routing.flatIds, routing.flatWeights)

def run : Except String (List Row) :=
  let (rows, ids, weights) := dispatch routing
  viewSum routing.tokenCount routing.topk (applyExperts experts 0 rows ids weights)

end TokenDispatcher

namespace AllToAll

/-- What a rank has after `dispatch`. -/
structure Dispatched (Row Weight : Type) (size : ℕ) where
  hidden : Fin size → List Row
  ids : Fin size → List ℤ
  weights : Fin size → List Weight
  inverseOrder : Fin size → List ℤ
  sendSplits : Fin size → List ℕ
  recvSplits : Fin size → List ℕ

variable (mesh : ExpertMesh size) (routings : Fin size → Routing Row Weight)

/-- `AllToAllTokenDispatcher.dispatch`, on all ranks. -/
def dispatch : Option (Dispatched Row Weight size) := do
  let flatIds ← everyRank fun rank =>
    if ((routings rank).flatIds.all fun id => 0 ≤ id ∧ id < mesh.numExperts) = true then
      some (routings rank).flatIds
    else none
  let owners := fun rank => (flatIds rank).map mesh.ownerOf
  let order := fun rank => argsort (owners rank)
  let sendCounts ← everyRank fun rank => bincount size (owners rank)
  let recvCounts ← exchangeEven sendCounts
  let tokens ← everyRank fun rank => indexSelect (routings rank).expanded (order rank)
  let sortedIds ← everyRank fun rank => indexSelect (flatIds rank) (order rank)
  let sortedWeights ← everyRank fun rank => indexSelect (routings rank).flatWeights (order rank)
  let routedIds ← exchange recvCounts sendCounts sortedIds
  let routedHidden ← exchange recvCounts sendCounts tokens
  let routedWeights ← exchange recvCounts sendCounts sortedWeights
  some {
    hidden := routedHidden
    ids := fun rank => (routedIds rank).map fun id => id - mesh.start rank
    weights := routedWeights
    inverseOrder := fun rank => argsort (order rank)
    sendSplits := sendCounts
    recvSplits := recvCounts }

def Dispatched.processed (mesh : ExpertMesh size) (dispatched : Dispatched Row Weight size) (rank : Fin size) :
    List (Assignment Row Weight) :=
  ((dispatched.ids rank).zip ((dispatched.hidden rank).zip (dispatched.weights rank))).map fun entry =>
    ⟨mesh.start rank + entry.1, entry.2.1, entry.2.2⟩

/-- `AllToAllTokenDispatcher.combine`, on all ranks. Once the rows are back, each rank goes on alone. -/
def combine [AddMonoid Row] (dispatched : Dispatched Row Weight size) (hidden : Fin size → List Row) :
    Option (Fin size → Except String (List Row)) := do
  let returned ← exchange dispatched.sendSplits dispatched.recvSplits hidden
  let restored ← everyRank fun rank => indexSelect (returned rank) (dispatched.inverseOrder rank)
  some fun rank => viewSum (routings rank).tokenCount (routings rank).topk (restored rank)

def run [AddMonoid Row] (experts : Experts Row Weight) : Option (Fin size → Except String (List Row)) := do
  let dispatched ← dispatch mesh routings
  combine routings dispatched fun rank =>
    applyExperts experts (mesh.start rank) (dispatched.hidden rank) (dispatched.ids rank) (dispatched.weights rank)

end AllToAll

/-! ### Assignments on their way -/

variable {mesh : ExpertMesh size} {routings : Fin size → Routing Row Weight}

def assignee (mesh : ExpertMesh size) (assignment : Assignment Row Weight) : ℤ := mesh.ownerOf assignment.expert

def assignmentsOf (routings : Fin size → Routing Row Weight) (rank : Fin size) : List (Assignment Row Weight) :=
  (routings rank).assignments

def Assignment.output (experts : Experts Row Weight) (assignment : Assignment Row Weight) : Row :=
  experts assignment.expert assignment.hidden assignment.weight

theorem owned_of_valid (valid : ∀ rank, (routings rank).Valid mesh.numExperts) (rank : Fin size) :
    Owned size (assignee mesh) (assignmentsOf routings rank) := by
  intro assignment mem
  have named : assignment.expert ∈ (routings rank).flatIds := by
    rw [← assignments_expert]
    exact mem_map_of_mem mem
  exact ExpertMesh.ownerOf_range (valid rank _ named).1 (valid rank _ named).2

theorem applyExperts_map (start : ℕ) (assignments : List (Assignment Row Weight)) :
    applyExperts experts start (assignments.map Assignment.hidden)
      (assignments.map fun assignment => assignment.expert - start) (assignments.map weight)
      = assignments.map (output experts) := by
  unfold applyExperts
  rw [zip_map', zip_map', map_map]
  refine map_congr_left fun assignment _ => ?_
  show experts (start + (assignment.expert - start)) assignment.hidden assignment.weight = _
  rw [show (start : ℤ) + (assignment.expert - start) = assignment.expert by omega]
  rfl

namespace AllToAll

/-- What the ranks have after dispatching: the assignments of their experts. -/
def arrived (mesh : ExpertMesh size) (routings : Fin size → Routing Row Weight) : Dispatched Row Weight size where
  hidden rank := (received (assignee mesh) (assignmentsOf routings) rank).map Assignment.hidden
  ids rank := (received (assignee mesh) (assignmentsOf routings) rank).map fun assignment =>
    assignment.expert - mesh.start rank
  weights rank := (received (assignee mesh) (assignmentsOf routings) rank).map weight
  inverseOrder rank := argsort (argsort ((assignmentsOf routings rank).map (assignee mesh)))
  sendSplits := sendSplits (assignee mesh) (assignmentsOf routings)
  recvSplits := recvSplits (assignee mesh) (assignmentsOf routings)

theorem sorted_tensor {Item : Type} {part : Assignment Row Weight → Item} {tensor : Fin size → List Item}
    (made : ∀ rank, (assignmentsOf routings rank).map part = tensor rank) :
    everyRank (fun rank => indexSelect (tensor rank) (argsort ((assignmentsOf routings rank).map (assignee mesh))))
      = some fun rank => (sortOn (assignee mesh) (assignmentsOf routings rank)).map part := by
  refine everyRank_eq_some.mpr fun rank => ?_
  rw [← made rank]
  exact indexSelect_argsort_map (assignee mesh) part (assignmentsOf routings rank)

/-- **The experts of a rank receive the assignments that name them.** -/
theorem dispatch_arrives (valid : ∀ rank, (routings rank).Valid mesh.numExperts) :
    dispatch mesh routings = some (arrived mesh routings) := by
  have owned := owned_of_valid valid
  have flat : everyRank (fun rank => if ((routings rank).flatIds.all fun id => 0 ≤ id ∧ id < mesh.numExperts) = true
      then some (routings rank).flatIds else none)
        = some fun rank => (assignmentsOf routings rank).map expert :=
    everyRank_eq_some.mpr fun rank => by
      rw [if_pos (all_eq_true.mpr fun id mem => decide_eq_true (valid rank id mem))]
      exact congrArg some (assignments_expert (routings rank)).symm
  have owners : ∀ rank, ((assignmentsOf routings rank).map expert).map mesh.ownerOf
      = (assignmentsOf routings rank).map (assignee mesh) := fun rank => map_map
  have counts : everyRank (fun rank => bincount size (((assignmentsOf routings rank).map expert).map mesh.ownerOf))
      = some (sendSplits (assignee mesh) (assignmentsOf routings)) :=
    everyRank_eq_some.mpr fun rank => by rw [owners]; exact bincount_shares (owned rank)
  refine bind_eq_some_iff.mpr ⟨_, flat, bind_eq_some_iff.mpr ⟨_, counts, ?_⟩⟩
  refine bind_eq_some_iff.mpr ⟨_, exchange_sizes, ?_⟩
  simp only [owners]
  refine bind_eq_some_iff.mpr ⟨_, sorted_tensor fun rank => assignments_hidden (routings rank), ?_⟩
  refine bind_eq_some_iff.mpr ⟨_, sorted_tensor fun rank => rfl, ?_⟩
  refine bind_eq_some_iff.mpr ⟨_, sorted_tensor fun rank => assignments_weight (routings rank), ?_⟩
  refine bind_eq_some_iff.mpr ⟨_, exchange_shares owned expert, ?_⟩
  refine bind_eq_some_iff.mpr ⟨_, exchange_shares owned Assignment.hidden, ?_⟩
  refine bind_eq_some_iff.mpr ⟨_, exchange_shares owned weight, ?_⟩
  simp only [map_map]
  rfl

theorem processed_arrived (rank : Fin size) :
    (arrived mesh routings).processed mesh rank = received (assignee mesh) (assignmentsOf routings) rank := by
  unfold Dispatched.processed arrived
  rw [zip_map', zip_map', map_map]
  conv_rhs => rw [← map_id (received (assignee mesh) (assignmentsOf routings) rank)]
  refine map_congr_left fun assignment _ => ?_
  show (⟨mesh.start rank + (assignment.expert - mesh.start rank), assignment.hidden, assignment.weight⟩ :
    Assignment Row Weight) = assignment
  rw [show (mesh.start rank : ℤ) + (assignment.expert - mesh.start rank) = assignment.expert by omega]

end AllToAll

/-- Every assignment is processed once, at the rank that has its expert. -/
def ProcessedOnce (mesh : ExpertMesh size) (routings : Fin size → Routing Row Weight) : Prop :=
  ∃ dispatched, AllToAll.dispatch mesh routings = some dispatched ∧
    ((finRange size).flatMap (dispatched.processed mesh)).Perm
      ((finRange size).flatMap fun rank => (routings rank).assignments) ∧
    ∀ rank : Fin size, ∀ assignment ∈ dispatched.processed mesh rank,
      (mesh.start rank : ℤ) ≤ assignment.expert ∧ assignment.expert < mesh.start rank + mesh.localExperts

theorem processed_once (valid : ∀ rank, (routings rank).Valid mesh.numExperts) : ProcessedOnce mesh routings := by
  refine ⟨_, AllToAll.dispatch_arrives valid, ?_, fun rank assignment mem => ?_⟩
  · rw [funext AllToAll.processed_arrived]
    exact received_perm (owned_of_valid valid)
  · rw [AllToAll.processed_arrived] at mem
    obtain ⟨source, -, mine⟩ := mem_received.mp mem
    exact ExpertMesh.ownerOf_iff.mp mine

section Combine

variable [AddMonoid Row] {experts : Experts Row Weight}

theorem TokenDispatcher.run_eq (routing : Routing Row Weight) : TokenDispatcher.run experts routing
    = viewSum routing.tokenCount routing.topk (routing.assignments.map (output experts)) := by
  have applied := applyExperts_map experts 0 routing.assignments
  simp only [Nat.cast_zero, sub_zero] at applied
  rw [assignments_expert, assignments_hidden, assignments_weight] at applied
  rw [← applied]
  rfl

/-- **Each rank computes what it would have computed alone.** -/
theorem AllToAll.run_eq (valid : ∀ rank, (routings rank).Valid mesh.numExperts) :
    AllToAll.run mesh routings experts = some fun rank => TokenDispatcher.run experts (routings rank) := by
  have owned := owned_of_valid valid
  refine bind_eq_some_iff.mpr ⟨_, dispatch_arrives valid, ?_⟩
  have outputs : (fun rank : Fin size => applyExperts experts (mesh.start rank) ((arrived mesh routings).hidden rank)
      ((arrived mesh routings).ids rank) ((arrived mesh routings).weights rank))
        = fun rank => (received (assignee mesh) (assignmentsOf routings) rank).map (output experts) :=
    funext fun rank => applyExperts_map experts (mesh.start rank) _
  rw [outputs]
  refine bind_eq_some_iff.mpr ⟨_, exchange_back owned _, ?_⟩
  refine bind_eq_some_iff.mpr
    ⟨_, everyRank_eq_some.mpr fun rank => indexSelect_inverse_map (assignee mesh) _ (assignmentsOf routings rank), ?_⟩
  exact congrArg some (funext fun rank => (TokenDispatcher.run_eq (routings rank)).symm)

theorem viewSum_ok {tokenCount topk : ℕ} {rows : List Row} (sized : rows.length = tokenCount * topk) :
    (∃ output, viewSum tokenCount topk rows = .ok output) ↔ tokenCount * topk ≠ 0 := by
  unfold viewSum
  by_cases empty : tokenCount * topk = 0
  · rw [if_pos empty]
    exact ⟨fun ⟨_, same⟩ => (by cases same), absurd empty⟩
  · rw [if_neg empty, if_neg fun differs => differs sized]
    exact ⟨fun _ => empty, fun _ => ⟨_, rfl⟩⟩

/-- A rank ends with the output that it computes alone. -/
def SameOutput (mesh : ExpertMesh size) (routings : Fin size → Routing Row Weight) (experts : Experts Row Weight)
    (rank : Fin size) : Prop :=
  ∃ results output, AllToAll.run mesh routings experts = some results ∧ results rank = .ok output ∧
    TokenDispatcher.run experts (routings rank) = .ok output

/-- **Every assignment is processed once, by its expert, and a rank ends with the output that it computes
alone exactly if it has a token.** -/
theorem all_to_all (mesh : ExpertMesh size) (routings : Fin size → Routing Row Weight)
    (experts : Experts Row Weight) (valid : ∀ rank, (routings rank).Valid mesh.numExperts) :
    ProcessedOnce mesh routings ∧ ∀ rank, SameOutput mesh routings experts rank ↔ (routings rank).hidden ≠ [] := by
  refine ⟨processed_once valid, fun rank => ?_⟩
  have sized : ((routings rank).assignments.map (output experts)).length
      = (routings rank).tokenCount * (routings rank).topk := by
    rw [length_map, length_assignments]
  have some_ : (routings rank).tokenCount * (routings rank).topk ≠ 0 ↔ (routings rank).hidden ≠ [] := by
    rw [Nat.mul_ne_zero_iff, and_iff_left (routings rank).routed.ne']
    exact length_eq_zero_iff.not
  rw [← some_, ← viewSum_ok sized, ← TokenDispatcher.run_eq]
  constructor
  · rintro ⟨results, output, -, -, alone⟩
    exact ⟨output, alone⟩
  · rintro ⟨output, alone⟩
    exact ⟨_, output, AllToAll.run_eq valid, alone, alone⟩

end Combine

/-! ### A rank without tokens -/

def twoRanks : ExpertMesh 2 := ⟨2, by decide, ⟨1, rfl⟩⟩

def lopsided (rank : Fin 2) : Routing ℤ ℤ :=
  if rank.val = 0 then
    { topk := 1, hidden := [5, 6, 7], expertIds := [[1], [1], [1]], weights := [[1], [2], [3]], routed := by decide,
      idRows := rfl, weightRows := rfl, idSlots := by decide, weightSlots := by decide }
  else
    { topk := 1, hidden := [], expertIds := [], weights := [], routed := by decide, idRows := rfl, weightRows := rfl,
      idSlots := by decide, weightSlots := by decide }

theorem lopsided_valid : ∀ rank, (lopsided rank).Valid twoRanks.numExperts := by
  refine Fin.forall_fin_two.mpr ⟨?_, ?_⟩
  · show ∀ id ∈ (lopsided 0).flatIds, 0 ≤ id ∧ id < twoRanks.numExperts
    decide
  · show ∀ id ∈ (lopsided 1).flatIds, 0 ≤ id ∧ id < twoRanks.numExperts
    decide

def scaling (_ : ℤ) (hidden weight : ℤ) : ℤ := weight * hidden

theorem lopsided_outputs : ProcessedOnce twoRanks lopsided ∧
    ∀ rank, SameOutput twoRanks lopsided scaling rank ↔ (lopsided rank).hidden ≠ [] :=
  all_to_all twoRanks lopsided scaling lopsided_valid

/-- The rank without tokens ends in an error, though its experts have processed all tokens. -/
theorem idle_rank_raises : (∀ rank, (lopsided rank).Valid twoRanks.numExperts) ∧
    ¬ SameOutput twoRanks lopsided scaling 1 := by
  refine ⟨lopsided_valid, ?_⟩
  rintro ⟨results, output, -, -, alone⟩
  cases alone

end TinyDSV41.Dispatch
