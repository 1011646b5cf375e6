/-
**Assignments in the order of their experts.**

* `TokenDispatcher.dispatch`, `AllToAll.dispatch` — the rows of a rank's experts, one expert after the other.
* `expertMajorOrder` — received rows are put in the order of the local experts by index arithmetic.
* `expert_order` — this is a permutation that keeps the order of the source ranks within an expert.
* `expert_major` — each rank ends with what it would have computed alone.
-/

import TinyDSV41.Dispatch.TokenDispatch
import TinyDSV41.Lib.Segments

namespace TinyDSV41.Dispatch.ExpertMajor

open List Lib Assignment TokenDispatcher Routing
open Option (bind_eq_some_iff)

variable {Row Weight : Type} {size : ℕ}

/-- What a rank's experts are given, with what it takes to undo the order. -/
structure Dispatched (Row Weight : Type) where
  hidden : List Row
  counts : List ℕ
  weights : List Weight
  inverseOrder : List ℤ

/-- `RoutedExperts.forward` between dispatch and combine: the rows are split by the counts, and each part is
given to its expert. -/
def groupedExperts (experts : Experts Row Weight) (start : ℕ) (hidden : List Row) (counts : List ℕ)
    (weights : List Weight) : List Row :=
  (pieces counts (hidden.zip weights)).zipIdx.flatMap fun part =>
    part.1.map fun row => experts ((start + part.2 : ℕ) : ℤ) row.1 row.2

/-- `torch.div(order, topk, rounding_mode="floor")` -/
def tokenIndices (topk : ℕ) (order : List ℤ) : List ℤ := order.map (· / topk)

variable (routing : Routing Row Weight)

/-- `hidden[inverse_order].reshape(token_count, topk, hidden.shape[-1]).sum(dim=1)` -/
def combineSlots [AddMonoid Row] (routing : Routing Row Weight) (inverseOrder : List ℤ) (hidden : List Row) :
    Option (List Row) := do
  let restored ← indexSelect hidden inverseOrder
  if restored.length = routing.tokenCount * routing.topk then
    some (tokenSums routing.tokenCount routing.topk restored)
  else none

namespace TokenDispatcher

variable (routing : Routing Row Weight)

/-- `TokenDispatcher.dispatch` -/
def dispatch (numExperts : ℕ) : Option (Dispatched Row Weight) := do
  let order := argsort routing.flatIds
  let counts ← bincount numExperts routing.flatIds
  let hidden ← indexSelect routing.hidden (tokenIndices routing.topk order)
  let weights ← indexSelect routing.flatWeights order
  some { hidden := hidden, counts := counts, weights := weights, inverseOrder := argsort order }

/-- Dispatch, the experts, and `TokenDispatcher.combine`. -/
def run [AddMonoid Row] (experts : Experts Row Weight) (numExperts : ℕ) : Option (List Row) := do
  let dispatched ← dispatch routing numExperts
  combineSlots routing dispatched.inverseOrder
    (groupedExperts experts 0 dispatched.hidden dispatched.counts dispatched.weights)

end TokenDispatcher

/-- `_expert_major_order` of a rank with some local experts. -/
def expertMajorOrder (localExperts : ℕ) (counts : List (List ℕ)) (total : ℕ) : Option (List ℤ) :=
  let flatCounts := counts.flatten
  let inputStarts := view counts.length localExperts (exclusive flatCounts)
  let segmentLengths := (columns localExperts counts).flatten
  segmentPositions (columns localExperts inputStarts).flatten segmentLengths total

namespace AllToAll

/-- What the ranks have after `dispatch`. -/
structure Metadata (Row Weight : Type) (size : ℕ) where
  dispatched : Fin size → Dispatched Row Weight
  rankMajorOrder : Fin size → List ℤ
  sendSplits : Fin size → List ℕ
  recvSplits : Fin size → List ℕ

variable (mesh : ExpertMesh size) (routings : Fin size → Routing Row Weight)

/-- `AllToAllTokenDispatcher.dispatch`, on all ranks. -/
def dispatch : Option (Metadata Row Weight size) := do
  let flatIds ← everyRank fun rank =>
    if ((routings rank).flatIds.all fun id => 0 ≤ id ∧ id < mesh.numExperts) = true then
      some (routings rank).flatIds
    else none
  let order := fun rank => argsort (flatIds rank)
  let counts ← everyRank fun rank => bincount mesh.numExperts (flatIds rank)
  let sendCounts := fun rank => view size mesh.localExperts (counts rank)
  let recvCounts ← exchangeEven sendCounts
  let sendSplits := fun rank => (sendCounts rank).map sum
  let recvSplits := fun rank => (recvCounts rank).map sum
  let rows ← everyRank fun rank => indexSelect (routings rank).hidden (tokenIndices (routings rank).topk (order rank))
  let routedHidden ← exchange recvSplits sendSplits rows
  let weights ← everyRank fun rank => indexSelect (routings rank).flatWeights (order rank)
  let routedWeights ← exchange recvSplits sendSplits weights
  let expertOrder ← everyRank fun rank =>
    expertMajorOrder mesh.localExperts (recvCounts rank) (routedHidden rank).length
  let ownHidden ← everyRank fun rank => indexSelect (routedHidden rank) (expertOrder rank)
  let ownWeights ← everyRank fun rank => indexSelect (routedWeights rank) (expertOrder rank)
  some {
    dispatched := fun rank => {
      hidden := ownHidden rank
      counts := (columns mesh.localExperts (recvCounts rank)).map sum
      weights := ownWeights rank
      inverseOrder := argsort (order rank) }
    rankMajorOrder := fun rank => argsort (expertOrder rank)
    sendSplits := sendSplits
    recvSplits := recvSplits }

/-- `AllToAllTokenDispatcher.combine`, on all ranks. -/
def combine [AddMonoid Row] (metadata : Metadata Row Weight size) (hidden : Fin size → List Row) :
    Option (Fin size → List Row) := do
  let ranked ← everyRank fun rank => indexSelect (hidden rank) (metadata.rankMajorOrder rank)
  let returned ← exchange metadata.sendSplits metadata.recvSplits ranked
  everyRank fun rank => combineSlots (routings rank) (metadata.dispatched rank).inverseOrder (returned rank)

def run [AddMonoid Row] (experts : Experts Row Weight) : Option (Fin size → List Row) := do
  let metadata ← dispatch mesh routings
  combine routings metadata fun rank =>
    groupedExperts experts (mesh.start rank) (metadata.dispatched rank).hidden (metadata.dispatched rank).counts
      (metadata.dispatched rank).weights

end AllToAll

/-! ### The order of received rows -/

/-- Received rows are put in the order of their experts: all of them, and those of an expert in the order of
their source ranks. -/
structure IsExpertMajor (localExperts : ℕ) (counts : List (List ℕ)) (order : List ℤ) : Prop where
  permutes : order.Perm (arange counts.flatten.sum)
  byExpert : ∀ {Item : Type} (cells : List (List (List Item))), cells.map (map length) = counts →
    indexSelect cells.flatten.flatten order = some (columns localExperts cells).flatten.flatten
  increasing : ∀ run ∈ pieces ((columns localExperts counts).map sum) order, run.Pairwise (· < ·)

variable {localExperts : ℕ} {counts : List (List ℕ)}

/-- **`_expert_major_order` is a permutation that keeps the order of the source ranks within an expert.** -/
theorem expert_order (each : ∀ row ∈ counts, row.length = localExperts) :
    expertMajorOrder localExperts counts counts.flatten.sum = some (transposed localExperts counts)
      ∧ IsExpertMajor localExperts counts (transposed localExperts counts) := by
  obtain ⟨cells, rfl⟩ : ∃ cells : List (List (List Unit)), cells.map (map length) = counts := by
    refine ⟨counts.map (map fun count => replicate count ()), ?_⟩
    simp only [map_map, Function.comp_def, length_replicate, map_id']
  have wide : ∀ {Item : Type} (others : List (List (List Item))),
      others.map (map length) = cells.map (map length) → ∀ row ∈ others, row.length = localExperts := by
    intro Item others same row mem
    have there := each (row.map length) (by rw [← same]; exact mem_map_of_mem mem)
    rw [length_map] at there
    exact there
  have sizes : (columns localExperts (cells.map (map length))).flatten.Perm
      (cells.map (map length)).flatten := columns_perm each
  refine ⟨?_, ?_, ?_, transposed_increasing (wide cells rfl)⟩
  · rw [← sizes.sum_eq]
    refine segmentPositions_eq ?_
    rw [length_map, ← locatedCells_starts]
    conv_rhs => rw [← locatedCells_segments (wide cells rfl)]
    simp only [columns_map, ← map_flatten, length_map]
  · have total : (cells.map (map length)).flatten.sum = cells.flatten.flatten.length := by
      rw [sizes_flatten, length_flatten]
    rw [total]
    exact transposed_perm (wide cells rfl)
  · intro Item others same
    have selected := transposed_select (wide others same)
    rw [same] at selected
    exact selected

/-! ### Assignments on their way -/

variable {mesh : ExpertMesh size} {routings : Fin size → Routing Row Weight} {experts : Experts Row Weight}

def chosen (routing : Routing Row Weight) (expert : ℕ) : List (Assignment Row Weight) :=
  routing.assignments.filter fun assignment => assignment.expert = (expert : ℤ)

/-- The assignments that name an expert, in the order of their ranks. -/
def arrivals (routings : Fin size → Routing Row Weight) (expert : ℕ) : List (Assignment Row Weight) :=
  (finRange size).flatMap fun source => chosen (routings source) expert

theorem chosen_named {routing : Routing Row Weight} (index : ℕ) :
    ∀ assignment ∈ chosen routing index, assignment.expert = (index : ℤ) :=
  fun _ mem => of_decide_eq_true (mem_filter.mp mem).2

variable {numExperts : ℕ}

section

variable {routing : Routing Row Weight} (valid : routing.Valid numExperts)
include valid

theorem sortOn_chosen :
    sortOn expert routing.assignments = (range numExperts).flatMap (chosen routing) := by
  have increasing : ((range numExperts).map fun (id : ℕ) => (id : ℤ)).Pairwise (· < ·) :=
    pairwise_map.mpr (pairwise_lt_range.imp Int.ofNat_lt.mpr)
  have all : ∀ assignment ∈ routing.assignments, assignment.expert ∈ (range numExperts).map fun (id : ℕ) => (id : ℤ) := by
    intro assignment mem
    obtain ⟨low, high⟩ := valid assignment.expert (by
      rw [← assignments_expert]
      exact mem_map_of_mem mem)
    exact mem_map.mpr ⟨assignment.expert.toNat, mem_range.mpr (by omega), Int.toNat_of_nonneg low⟩
  rw [sortOn_eq_flatMap increasing all, flatMap_map]
  rfl

theorem bincount_chosen : bincount numExperts routing.flatIds
      = some ((range numExperts).map fun expert => (chosen routing expert).length) := by
  rw [bincount_below valid]
  refine congrArg some (map_congr_left fun expert _ => ?_)
  rw [← assignments_expert, count_eq_countP, countP_map, countP_eq_length_filter]
  exact congrArg length (filter_congr fun assignment _ => rfl)

end

theorem hidden_selected :
    indexSelect routing.hidden (tokenIndices routing.topk (argsort routing.flatIds))
      = some ((sortOn expert routing.assignments).map Assignment.hidden) := by
  have expanded := indexSelect_argsort_map expert Assignment.hidden routing.assignments
  rw [assignments_hidden, assignments_expert] at expanded
  rw [← expanded]
  unfold indexSelect tokenIndices Routing.expanded
  rw [List.mapM_map]
  exact congrArg (fun read => mapM read _) (funext fun id => (rowAt_repeated routing.routed _ id).symm)

theorem weights_selected :
    indexSelect routing.flatWeights (argsort routing.flatIds)
      = some ((sortOn expert routing.assignments).map weight) := by
  have selected := indexSelect_argsort_map expert weight routing.assignments
  rw [assignments_weight, assignments_expert] at selected
  exact selected

theorem groupedExperts_each {start count : ℕ} {group : ℕ → List (Assignment Row Weight)}
    (named : ∀ index, ∀ assignment ∈ group index, assignment.expert = ((start + index : ℕ) : ℤ)) :
    groupedExperts experts start (((range count).flatMap group).map Assignment.hidden)
      ((range count).map fun index => (group index).length) (((range count).flatMap group).map weight)
        = ((range count).flatMap group).map (output experts) := by
  have split := pieces_flatten ((range count).map fun index =>
    (group index).map fun assignment => (assignment.hidden, assignment.weight))
  simp only [map_map, Function.comp_def, length_map, ← flatMap_def, ← map_flatMap] at split
  unfold groupedExperts
  rw [zip_map', split, zipIdx_map, zipIdx_range, map_map, flatMap_map, map_flatMap]
  refine flatMap_congr fun index _ => ?_
  show ((group index).map _).map _ = _
  rw [map_map]
  refine map_congr_left fun assignment mem => ?_
  show experts ((start + index : ℕ) : ℤ) assignment.hidden assignment.weight = _
  rw [← named index assignment mem]
  rfl

theorem TokenDispatcher.dispatch_eq {routing : Routing Row Weight} (valid : routing.Valid numExperts) :
    dispatch routing numExperts = some
      { hidden := ((range numExperts).flatMap (chosen routing)).map Assignment.hidden
        counts := (range numExperts).map fun expert => (chosen routing expert).length
        weights := ((range numExperts).flatMap (chosen routing)).map weight
        inverseOrder := argsort (argsort routing.flatIds) } := by
  rw [← sortOn_chosen valid]
  refine bind_eq_some_iff.mpr ⟨_, bincount_chosen valid, ?_⟩
  refine bind_eq_some_iff.mpr ⟨_, hidden_selected routing, ?_⟩
  exact bind_eq_some_iff.mpr ⟨_, weights_selected routing, rfl⟩

/-! ### Ranks -/

/-- The assignments that one rank sends to another, in the order of their experts. -/
def sent (mesh : ExpertMesh size) (routings : Fin size → Routing Row Weight) (source target : Fin size) :
    List (Assignment Row Weight) :=
  (range mesh.localExperts).flatMap fun index => chosen (routings source) (mesh.start target + index)

/-- The assignments that arrive at a rank, by source rank and expert. -/
def cells (mesh : ExpertMesh size) (routings : Fin size → Routing Row Weight) (rank : Fin size) :
    List (List (List (Assignment Row Weight))) :=
  (finRange size).map fun source =>
    (range mesh.localExperts).map fun index => chosen (routings source) (mesh.start rank + index)

def own (mesh : ExpertMesh size) (routings : Fin size → Routing Row Weight) (rank : Fin size) :
    List (Assignment Row Weight) :=
  (range mesh.localExperts).flatMap fun index => arrivals routings (mesh.start rank + index)

theorem cells_each (mesh : ExpertMesh size) (routings : Fin size → Routing Row Weight) (rank : Fin size) : ∀ row ∈ cells mesh routings rank, row.length = mesh.localExperts :=
  forall_mem_map.mpr fun source _ => by rw [length_map, length_range]

theorem cells_flatten (rank : Fin size) :
    (cells mesh routings rank).flatten.flatten = (finRange size).flatMap fun source => sent mesh routings source rank := by
  unfold cells sent
  rw [← flatMap_def, ← flatMap_id, flatMap_assoc]
  refine flatMap_congr fun source _ => ?_
  rw [flatMap_map]
  rfl

theorem cells_columns (rank : Fin size) : columns mesh.localExperts (cells mesh routings rank)
    = (range mesh.localExperts).map fun index =>
        (finRange size).map fun source => chosen (routings source) (mesh.start rank + index) := by
  unfold columns cells
  refine map_congr_left fun index mem => ?_
  rw [filterMap_map, ← filterMap_eq_map]
  refine filterMap_congr fun source _ => ?_
  show ((range mesh.localExperts).map _)[index]? = _
  rw [getElem?_map, getElem?_range (mem_range.mp mem)]
  rfl

theorem cells_own (rank : Fin size) :
    (columns mesh.localExperts (cells mesh routings rank)).flatten.flatten = own mesh routings rank := by
  rw [cells_columns, ← flatMap_def, ← flatMap_id, flatMap_assoc]
  refine flatMap_congr fun index _ => ?_
  rw [flatMap_map]
  rfl

theorem sortOn_sent (valid : ∀ rank, (routings rank).Valid mesh.numExperts) (rank : Fin size) :
    sortOn expert (routings rank).assignments = (finRange size).flatMap (sent mesh routings rank) := by
  rw [sortOn_chosen (valid rank), ← ExpertMesh.experts_eq, range_mul, flatMap_def, range_eq_finRange, ← flatMap_def]
  rfl

def sentCounts (mesh : ExpertMesh size) (routings : Fin size → Routing Row Weight) (source target : Fin size) : List ℕ :=
  (range mesh.localExperts).map fun index => (chosen (routings source) (mesh.start target + index)).length

theorem sentCounts_sum (source target : Fin size) :
    (sentCounts mesh routings source target).sum = (sent mesh routings source target).length := by
  unfold sentCounts sent
  rw [length_flatMap]

section

variable (rank : Fin size)
include rank

theorem counts_view :
    view size mesh.localExperts ((range mesh.numExperts).map fun expert => (chosen (routings rank) expert).length)
      = (finRange size).map (sentCounts mesh routings rank) := by
  have rows : ((range mesh.numExperts).map fun expert => (chosen (routings rank) expert).length)
      = ((finRange size).map (sentCounts mesh routings rank)).flatten := by
    rw [map_eq_flatMap, ← ExpertMesh.experts_eq, range_mul, flatMap_def, range_eq_finRange]
    refine congrArg flatten (map_congr_left fun target _ => ?_)
    rw [← map_eq_flatMap]
    rfl
  have each : ∀ row ∈ (finRange size).map (sentCounts mesh routings rank), row.length = mesh.localExperts :=
    forall_mem_map.mpr fun target _ => by
      unfold sentCounts
      rw [length_map, length_range]
  have split := view_flatten each
  rw [length_map, length_finRange] at split
  rw [rows]
  exact split

theorem cells_counts : (finRange size).map (fun source => sentCounts mesh routings source rank)
    = (cells mesh routings rank).map (map length) := by
  unfold cells sentCounts
  rw [map_map]
  refine map_congr_left fun source _ => ?_
  show _ = map length (map _ _)
  rw [map_map]
  rfl

theorem recv_each : ∀ row ∈ (cells mesh routings rank).map (map length), row.length = mesh.localExperts :=
  forall_mem_map.mpr fun row mem => by
    rw [length_map]
    exact cells_each mesh routings rank row mem

theorem recv_total : ((cells mesh routings rank).map (map length)).flatten.sum
    = (cells mesh routings rank).flatten.flatten.length := by
  rw [sizes_flatten, length_flatten]

theorem own_counts : (columns mesh.localExperts ((cells mesh routings rank).map (map length))).map sum
      = (range mesh.localExperts).map fun index => (arrivals routings (mesh.start rank + index)).length := by
  rw [columns_map, cells_columns, map_map, map_map]
  refine map_congr_left fun index _ => ?_
  unfold arrivals
  rw [length_flatMap]
  show (map length (map _ _)).sum = _
  rw [map_map]
  rfl

end

/-- The order in which a rank's experts are given the received rows. -/
def ownOrder (mesh : ExpertMesh size) (routings : Fin size → Routing Row Weight) (rank : Fin size) : List ℤ :=
  transposed mesh.localExperts ((cells mesh routings rank).map (map length))

/-- What the ranks have after dispatching: the assignments of their experts, grouped by expert. -/
def arrived (mesh : ExpertMesh size) (routings : Fin size → Routing Row Weight) : AllToAll.Metadata Row Weight size where
  dispatched rank := {
    hidden := (own mesh routings rank).map Assignment.hidden
    counts := (range mesh.localExperts).map fun index => (arrivals routings (mesh.start rank + index)).length
    weights := (own mesh routings rank).map weight
    inverseOrder := argsort (argsort (routings rank).flatIds) }
  rankMajorOrder rank := argsort (ownOrder mesh routings rank)
  sendSplits rank := (finRange size).map fun target => (sent mesh routings rank target).length
  recvSplits rank := (finRange size).map fun source => (sent mesh routings source rank).length

variable {Item : Type}

section

variable (valid : ∀ rank, (routings rank).Valid mesh.numExperts) (part : Assignment Row Weight → Item)
include valid part

theorem exchange_sent : exchange (arrived mesh routings).recvSplits (arrived mesh routings).sendSplits
        (fun rank => (sortOn expert (routings rank).assignments).map part)
      = some fun rank => (cells mesh routings rank).flatten.flatten.map part := by
  have moved := exchange_segments fun source target => (sent mesh routings source target).map part
  simp only [length_map, ← map_flatMap, ← sortOn_sent valid, ← cells_flatten] at moved
  exact moved

theorem exchange_returned : exchange (arrived mesh routings).sendSplits (arrived mesh routings).recvSplits
        (fun rank => (cells mesh routings rank).flatten.flatten.map part)
      = some fun rank => (sortOn expert (routings rank).assignments).map part := by
  have moved := exchange_segments fun source target => (sent mesh routings target source).map part
  simp only [length_map, ← map_flatMap, ← sortOn_sent valid, ← cells_flatten] at moved
  exact moved

end

variable (part : Assignment Row Weight → Item)

theorem own_selected (rank : Fin size) :
    indexSelect ((cells mesh routings rank).flatten.flatten.map part) (ownOrder mesh routings rank)
      = some ((own mesh routings rank).map part) := by
  have selected := transposed_select (cells_each mesh routings rank)
  rw [cells_own] at selected
  rw [indexSelect_map]
  exact congrArg (Option.map (map part)) selected

theorem own_restored (rank : Fin size) :
    indexSelect ((own mesh routings rank).map part) (argsort (ownOrder mesh routings rank))
      = some ((cells mesh routings rank).flatten.flatten.map part) := by
  have permutes := transposed_perm (cells_each mesh routings rank)
  rw [← length_map part] at permutes
  exact indexSelect_unpermute permutes (own_selected part rank)

/-- **The experts of a rank are given the assignments that name them, one expert after the other.** -/
theorem dispatch_arrived (valid : ∀ rank, (routings rank).Valid mesh.numExperts) :
    AllToAll.dispatch mesh routings = some (arrived mesh routings) := by
  have flat : everyRank (fun rank => if ((routings rank).flatIds.all fun id => 0 ≤ id ∧ id < mesh.numExperts) = true
      then some (routings rank).flatIds else none) = some fun rank => (routings rank).flatIds :=
    everyRank_eq_some.mpr fun rank =>
      if_pos (all_eq_true.mpr fun id mem => decide_eq_true (valid rank id mem))
  have counted := everyRank_eq_some.mpr fun rank => bincount_chosen (valid rank)
  refine bind_eq_some_iff.mpr ⟨_, flat, bind_eq_some_iff.mpr ⟨_, counted, ?_⟩⟩
  simp only [counts_view]
  refine bind_eq_some_iff.mpr ⟨_, exchange_even (sentCounts mesh routings), ?_⟩
  have sends : (fun rank => ((finRange size).map (sentCounts mesh routings rank)).map sum)
      = (arrived mesh routings).sendSplits := by
    funext rank
    rw [map_map]
    exact map_congr_left fun target _ => sentCounts_sum rank target
  have receives : (fun rank => ((cells mesh routings rank).map (map length)).map sum)
      = (arrived mesh routings).recvSplits := by
    funext rank
    rw [← cells_counts, map_map]
    exact map_congr_left fun source _ => sentCounts_sum source rank
  have ordered : everyRank (fun rank => expertMajorOrder mesh.localExperts
      ((cells mesh routings rank).map (map length))
      ((cells mesh routings rank).flatten.flatten.map Assignment.hidden).length) = some (ownOrder mesh routings) :=
    everyRank_eq_some.mpr fun rank => by
      rw [length_map, ← recv_total]
      exact (expert_order (recv_each rank)).1
  simp only [sends, cells_counts, receives]
  refine bind_eq_some_iff.mpr ⟨_, everyRank_eq_some.mpr fun rank => hidden_selected (routings rank), ?_⟩
  refine bind_eq_some_iff.mpr ⟨_, exchange_sent valid Assignment.hidden, ?_⟩
  refine bind_eq_some_iff.mpr ⟨_, everyRank_eq_some.mpr fun rank => weights_selected (routings rank), ?_⟩
  refine bind_eq_some_iff.mpr ⟨_, exchange_sent valid weight, ?_⟩
  refine bind_eq_some_iff.mpr ⟨_, ordered, ?_⟩
  refine bind_eq_some_iff.mpr ⟨_, everyRank_eq_some.mpr fun rank => own_selected Assignment.hidden rank, ?_⟩
  refine bind_eq_some_iff.mpr ⟨_, everyRank_eq_some.mpr fun rank => own_selected weight rank, ?_⟩
  simp only [own_counts]
  rfl

/-- A rank's experts are given contiguous rows, one expert after the other, with their counts: the assignments
that name them, in the order of the ranks they come from. -/
structure GroupedByExpert (mesh : ExpertMesh size) (routings : Fin size → Routing Row Weight) (rank : Fin size)
    (dispatched : Dispatched Row Weight) : Prop where
  counted : dispatched.counts
    = (range mesh.localExperts).map fun index => (arrivals routings (mesh.start rank + index)).length
  hidden : pieces dispatched.counts dispatched.hidden = (range mesh.localExperts).map fun index =>
    (arrivals routings (mesh.start rank + index)).map Assignment.hidden
  weights : pieces dispatched.counts dispatched.weights = (range mesh.localExperts).map fun index =>
    (arrivals routings (mesh.start rank + index)).map weight
  all : dispatched.hidden.length = dispatched.counts.sum ∧ dispatched.weights.length = dispatched.counts.sum

theorem pieces_own (rank : Fin size) :
    pieces ((range mesh.localExperts).map fun index => (arrivals routings (mesh.start rank + index)).length)
        ((own mesh routings rank).map part)
      = (range mesh.localExperts).map fun index => (arrivals routings (mesh.start rank + index)).map part := by
  have split := pieces_flatten ((range mesh.localExperts).map fun index =>
    (arrivals routings (mesh.start rank + index)).map part)
  simp only [map_map, Function.comp_def, length_map, ← flatMap_def, ← map_flatMap] at split
  exact split

theorem length_own (rank : Fin size) : (own mesh routings rank).length
    = ((range mesh.localExperts).map fun index => (arrivals routings (mesh.start rank + index)).length).sum := by
  unfold own
  rw [length_flatMap]

section Combine

variable [AddMonoid Row]

theorem combineSlots_eq (routing : Routing Row Weight) :
    combineSlots routing (argsort (argsort routing.flatIds))
      ((sortOn expert routing.assignments).map (output experts))
        = some (tokenSums routing.tokenCount routing.topk (routing.assignments.map (output experts))) := by
  have restored := indexSelect_inverse_map expert (output experts) routing.assignments
  rw [assignments_expert] at restored
  unfold combineSlots
  rw [restored]
  exact if_pos (by rw [length_map, length_assignments])

theorem TokenDispatcher.run_eq {routing : Routing Row Weight} (valid : routing.Valid numExperts) :
    TokenDispatcher.run routing experts numExperts
      = some (tokenSums routing.tokenCount routing.topk (routing.assignments.map (output experts))) := by
  refine bind_eq_some_iff.mpr ⟨_, dispatch_eq valid, ?_⟩
  have named : ∀ index, ∀ assignment ∈ chosen routing index, assignment.expert = ((0 + index : ℕ) : ℤ) := by
    intro index
    rw [Nat.zero_add]
    exact chosen_named index
  rw [groupedExperts_each named, ← sortOn_chosen valid]
  exact combineSlots_eq routing

/-- **Each rank computes what it would have computed alone.** -/
theorem AllToAll.run_eq (valid : ∀ rank, (routings rank).Valid mesh.numExperts) :
    AllToAll.run mesh routings experts = some fun rank =>
      tokenSums (routings rank).tokenCount (routings rank).topk
        ((routings rank).assignments.map (output experts)) := by
  have outputs : (fun rank : Fin size => groupedExperts experts (mesh.start rank)
      ((arrived mesh routings).dispatched rank).hidden ((arrived mesh routings).dispatched rank).counts
      ((arrived mesh routings).dispatched rank).weights)
        = fun rank => (own mesh routings rank).map (output experts) := by
    funext rank
    refine groupedExperts_each fun index assignment mem => ?_
    obtain ⟨source, -, there⟩ := mem_flatMap.mp mem
    exact chosen_named _ assignment there
  have ranked : everyRank (fun rank => indexSelect ((own mesh routings rank).map (output experts))
      (argsort (ownOrder mesh routings rank)))
        = some fun rank => (cells mesh routings rank).flatten.flatten.map (output experts) :=
    everyRank_eq_some.mpr fun rank => own_restored _ rank
  refine bind_eq_some_iff.mpr ⟨_, dispatch_arrived valid, ?_⟩
  rw [outputs]
  refine bind_eq_some_iff.mpr ⟨_, ranked, ?_⟩
  refine bind_eq_some_iff.mpr ⟨_, exchange_returned valid (output experts), ?_⟩
  exact everyRank_eq_some.mpr fun rank => combineSlots_eq (routings rank)

/-- **Experts divided among ranks compute what they compute on one rank, and they are given contiguous rows in
an order that keeps the order of the source ranks.** -/
theorem expert_major (mesh : ExpertMesh size) (routings : Fin size → Routing Row Weight)
    (experts : Experts Row Weight) (valid : ∀ rank, (routings rank).Valid mesh.numExperts) :
    (∃ outputs, AllToAll.run mesh routings experts = some outputs ∧ ∀ rank,
        TokenDispatcher.run (routings rank) experts mesh.numExperts = some (outputs rank))
      ∧ (∃ metadata, AllToAll.dispatch mesh routings = some metadata ∧ ∀ rank,
        GroupedByExpert mesh routings rank (metadata.dispatched rank))
      ∧ ∀ (localExperts : ℕ) (counts : List (List ℕ)), (∀ row ∈ counts, row.length = localExperts) →
        ∃ order, expertMajorOrder localExperts counts counts.flatten.sum = some order
          ∧ IsExpertMajor localExperts counts order := by
  refine ⟨⟨_, AllToAll.run_eq valid, fun rank => TokenDispatcher.run_eq (valid rank)⟩,
    ⟨_, dispatch_arrived valid, fun rank => ?_⟩, fun localExperts counts each => ⟨_, expert_order each⟩⟩
  refine ⟨rfl, pieces_own _ rank, pieces_own _ rank, ?_, ?_⟩
  all_goals exact (length_map _).trans (length_own rank)

theorem lopsided_expert_major :
    (∃ outputs, AllToAll.run twoRanks lopsided scaling = some outputs ∧ ∀ rank,
        TokenDispatcher.run (lopsided rank) scaling twoRanks.numExperts = some (outputs rank))
      ∧ (∃ metadata, AllToAll.dispatch twoRanks lopsided = some metadata ∧ ∀ rank,
        GroupedByExpert twoRanks lopsided rank (metadata.dispatched rank))
      ∧ ∀ (localExperts : ℕ) (counts : List (List ℕ)), (∀ row ∈ counts, row.length = localExperts) →
        ∃ order, expertMajorOrder localExperts counts counts.flatten.sum = some order
          ∧ IsExpertMajor localExperts counts order :=
  expert_major twoRanks lopsided scaling lopsided_valid

end Combine

end TinyDSV41.Dispatch.ExpertMajor
