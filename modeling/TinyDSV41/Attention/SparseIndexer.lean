/-
**The groups that a query selects.**

* `SparseIndexer.forward` — the keys of a row, the scores of its queries, the blocks of candidates and the selected
  groups.
* `masked`, `keptBlocks`, `selectedGroups` — the same for the visible groups of one sequence, counted from its first one.
* `keyStart_eq`, `keyEnd_eq` — the bounds that are searched are the visible groups of the sequence.
* `selectCandidateBlocks_eq`, `selected_entries` — what is selected among the scores of a row is what the sequence
  selects.
-/

import TinyDSV41.Lib.TopK
import TinyDSV41.Lib.Bisect
import TinyDSV41.Attention.Compressor

set_option linter.unusedSectionVars false

namespace TinyDSV41.Attention

open List Lib
open Model.ContextParallel (Batch valueAt)
open Qwen (Vec linear viewHeads)

variable {rows : ℕ} {F : Type} [Field F] [LinearOrder F] {config : Config}

/-! ### Scores and candidates -/

abbrev Score (F : Type) := WithBot (WithTop F)

def finite (value : F) : Score F := ((value : WithTop F) : Score F)

def infinity : Score F := ((⊤ : WithTop F) : Score F)

/-- `torch.iinfo(torch.int64).max` -/
def sentinel : ℤ := 2 ^ 63 - 1

/-- `key_sequence_ids.masked_fill(key_sequence_ids < 0, sentinel)` -/
def searchableIds (ids : List ℤ) : List ℤ := ids.map fun id => if id < 0 then sentinel else id

/-- `torch.searchsorted` -/
def searchsorted (ids : List ℤ) (value : ℤ) (right : Bool) : ℕ :=
  bisect (fun place => if right = true then decide (ids.getD place 0 ≤ value) else decide (ids.getD place 0 < value))
    0 ids.length

/-- `key_starts` -/
def keyStart (ids : List ℤ) (id : ℤ) : ℕ := searchsorted (searchableIds ids) id false

/-- `sequence_ends` -/
def sequenceEnd (ids : List ℤ) (id : ℤ) : ℕ := searchsorted (searchableIds ids) id true

/-- `key_ends` of a query at a position. -/
def keyEnd (ratio : ℕ) (ids : List ℤ) (id position : ℤ) : ℤ :=
  let visibleCount := (position + 1) / ratio
  let bounded := min (sequenceEnd ids id : ℤ) (keyStart ids id + visibleCount)
  if 0 ≤ id ∧ (keyStart ids id : ℤ) < bounded then bounded else keyStart ids id

/-- `index_scores` of a query, from the scores of keys. -/
def indexScores (score : ℕ → F) (keys start : ℕ) (stop : ℤ) (width : ℕ) (candidates : Option (List Bool)) : List (Score F) :=
  (range width).map fun column =>
    if decide (((start + column : ℕ) : ℤ) < stop) && candidates.all (·.getD column false) then
      finite (score (min (start + column) (keys - 1)))
    else ⊥

/-- `_select_topk` if it is stable. -/
def selectTopk (scores : List (Score F)) (count : ℕ) : List (Score F × ℕ) := highest count scores

def blockScores (blockSize : ℕ) (scores : List (Score F)) : List (Score F) :=
  let padded := scores ++ replicate ((-(scores.length : ℤ)) % blockSize).toNat ⊥
  (view (padded.length / blockSize) blockSize padded).map fun block => block.foldr max ⊥

/-- `select_candidate_blocks` of a query, with stable selection. -/
def selectCandidateBlocks (scores : List (Score F)) (visible : ℤ) (topkBlocks blockSize : ℕ) : List Bool :=
  let width := scores.length
  if width = 0 then []
  else
    let last := (visible - 1) / blockSize
    let marked := (blockScores blockSize scores).zipIdx.map fun entry => if (entry.2 : ℤ) = last then infinity else entry.1
    let selected := selectTopk marked (min topkBlocks marked.length)
    let keep := scatter (replicate marked.length false) (selected.map fun entry => (entry.2, decide (⊥ < entry.1)))
    (keep.flatMap (replicate blockSize)).take width

/-! ### The indexer -/

/-- `RotaryEmbedding`: the inverse frequencies of compressed layers. -/
structure RotaryEmbedding (F : Type) (config : Config) where
  compressed : Vec F config.ropePairs

/-- `apply_rope` at a position: pairs of the last dimensions are rotated. -/
def applyRope (functions : Functions F) (rotary : RotaryEmbedding F config) (position : ℤ) (x : Vec F config.indexHeadDim) :
    Vec F config.indexHeadDim :=
  Fin.addCases (fun plain => x (Fin.castAdd _ plain)) fun place =>
    let pair := (finProdFinEquiv.symm place).1
    let even := x (Fin.natAdd _ (finProdFinEquiv (pair, 0)))
    let odd := x (Fin.natAdd _ (finProdFinEquiv (pair, 1)))
    let cos := functions.cos (position * rotary.compressed pair)
    let sin := functions.sin (position * rotary.compressed pair)
    if (finProdFinEquiv.symm place).2 = 0 then even * cos - odd * sin else even * sin + odd * cos

/-- The weights of `SparseIndexer`. -/
structure SparseIndexer (F : Type) (config : Config) where
  qProj : Fin (config.indexNHeads * config.indexHeadDim) → Vec F config.qLoraRank
  weightProj : Fin config.indexNHeads → Vec F config.hiddenSize
  kProj : Fin config.indexHeadDim → Vec F config.headDim
  kNorm : Vec F config.indexHeadDim
  rmsNormEps : F

/-- What layers reuse of each other: tensors with a list for each row, and for each query of it. -/
structure ShadowIndexers (F : Type) (config : Config) (rows : ℕ) where
  compressedSequenceIds : Option (Fin rows → List ℤ)
  indexKeys : Option (Fin rows → List (Vec F config.indexHeadDim))
  topkIndices : Option (Fin rows → List (List ℤ))
  candidates : Option (Fin rows → List (List Bool))

namespace SparseIndexer

variable (functions : Functions F) (rotary : RotaryEmbedding F config) (indexer : SparseIndexer F config)

def key (position : ℤ) (latent : Vec F config.headDim) : Vec F config.indexHeadDim :=
  applyRope functions rotary position (rmsNorm functions indexer.kNorm indexer.rmsNormEps (linear indexer.kProj latent))

def score (position : ℤ) (x : Vec F config.hiddenSize) (qResidual : Vec F config.qLoraRank)
    (key : Vec F config.indexHeadDim) : F :=
  let query (head : Fin config.indexNHeads) : Vec F config.indexHeadDim :=
    applyRope functions rotary position (viewHeads (linear indexer.qProj qResidual) head)
  let headWeight (head : Fin config.indexNHeads) : F :=
    linear indexer.weightProj x head * functions.rsqrt (config.indexNHeads : F)
  ∑ head, max (∑ place, query head place * key place) 0 * functions.rsqrt (config.indexHeadDim : F) * headWeight head

/-- `max_sequence_width` -/
def maxSequenceWidth (batch : Batch rows) (queries : List ℕ) (ids : Fin rows → List ℤ) : ℕ :=
  ((finRange rows).flatMap fun row => queries.map fun token =>
    sequenceEnd (ids row) (batch.sequence token row) - keyStart (ids row) (batch.sequence token row)).foldr max 0

def scoresAt (batch : Batch rows) (ratio width : ℕ) (ids : Fin rows → List ℤ)
    (keys : Fin rows → List (Vec F config.indexHeadDim)) (candidates : Option (Fin rows → List (List Bool)))
    (x : Fin rows → ℕ → Vec F config.hiddenSize) (qResidual : Fin rows → ℕ → Vec F config.qLoraRank) (row : Fin rows)
    (token index : ℕ) : List (Score F) :=
  let id := batch.sequence token row
  indexScores (fun place => indexer.score functions rotary (position batch token row) (x row token) (qResidual row token)
      ((keys row).getD place fun _ => 0))
    (keys row).length (keyStart (ids row) id) (keyEnd ratio (ids row) id (position batch token row)) width
    (candidates.map fun masks => (masks row).getD index [])

def candidatesAt (config : Config) (batch : Batch rows) (ratio : ℕ) (ids : Fin rows → List ℤ) (scores : List (Score F)) (row : Fin rows)
    (token : ℕ) : List Bool :=
  let id := batch.sequence token row
  selectCandidateBlocks scores (keyEnd ratio (ids row) id (position batch token row) - keyStart (ids row) id)
    config.candidateTopkBlocks config.candidateBlockSize

/-- The selected groups of a query, -1 where there is none. -/
def topkAt (config : Config) (batch : Batch rows) (ids : Fin rows → List ℤ) (scores : List (Score F)) (row : Fin rows) (token : ℕ) : List ℤ :=
  (selectTopk scores (min config.indexTopk scores.length)).map fun entry =>
    if ⊥ < entry.1 then (keyStart (ids row) (batch.sequence token row) : ℤ) + entry.2 else -1

/-- `SparseIndexer.forward` of a layer, for the tokens that are queries. It fails if there are keys without ids. -/
def forward (layer : ℕ) (batch : Batch rows) (queries : List ℕ) (x : Fin rows → ℕ → Vec F config.hiddenSize)
    (qResidual : Fin rows → ℕ → Vec F config.qLoraRank) (latent : Option (Fin rows → List (Vec F config.headDim)))
    (groupPositions : Fin rows → List ℤ) (shadow : ShadowIndexers F config rows) : Option (ShadowIndexers F config rows) :=
  let indexKeys := if layer ∈ config.kvSourceLayerIds then
      latent.map fun latents row => zipWith (indexer.key functions rotary) (groupPositions row) (latents row)
    else shadow.indexKeys
  let isCandidateSource := decide ((layer : ℤ) = config.candidateSourceLayerId)
  match indexKeys with
  | none => some { shadow with
      indexKeys := none, topkIndices := none
      candidates := if isCandidateSource = true then none else shadow.candidates }
  | some keys =>
    match shadow.compressedSequenceIds with
    | none => none
    | some ids =>
      let width := maxSequenceWidth batch queries ids
      let previous := if 0 ≤ config.candidateSourceLayerId ∧ config.candidateSourceLayerId < layer then shadow.candidates
        else none
      let scores := indexer.scoresAt functions rotary batch (config.ratio layer) width ids keys previous x qResidual
      some { shadow with
        indexKeys := some keys
        candidates := if isCandidateSource = true then
            some fun row => queries.zipIdx.map fun query =>
              candidatesAt config batch (config.ratio layer) ids (scores row query.1 query.2) row query.1
          else shadow.candidates
        topkIndices := some fun row => queries.zipIdx.map fun query =>
          topkAt config batch ids (scores row query.1 query.2) row query.1 }

end SparseIndexer

/-! ### The groups of one sequence -/

/-- The score of a group that is visible and allowed. -/
def masked (visible : ℕ) (allowed : ℕ → Bool) (score : ℕ → F) (group : ℕ) : Score F :=
  if group < visible ∧ allowed group = true then finite (score group) else ⊥

/-- The highest score of a block of visible groups. The block of the last one precedes all others. -/
def blockScore (blockSize visible : ℕ) (score : ℕ → F) (block : ℕ) : Score F :=
  if 0 < visible ∧ block = (visible - 1) / blockSize then infinity
  else ((range blockSize).map fun offset => masked visible (fun _ => true) score (block * blockSize + offset)).foldr max ⊥

def keptBlocks (topkBlocks blockSize visible : ℕ) (score : ℕ → F) : List ℕ :=
  chosen topkBlocks ((range visible).map (blockScore blockSize visible score))

def selectedGroups (topk visible : ℕ) (allowed : ℕ → Bool) (score : ℕ → F) : List ℕ :=
  chosen topk ((range visible).map (masked visible allowed score))

variable {group : ℕ}

section Sequence

variable {visible : ℕ} {allowed other : ℕ → Bool} {score value : ℕ → F}

theorem bot_lt_finite (value : F) : (⊥ : Score F) < finite value := WithBot.bot_lt_coe _

theorem masked_beyond (beyond : visible ≤ group) : masked visible allowed score group = ⊥ :=
  if_neg fun both => absurd both.1 (not_lt.mpr beyond)

theorem masked_congr (same : ∀ group < visible, score group = value group)
    (masks : ∀ group < visible, allowed group = other group) : masked visible allowed score = masked visible other value := by
  funext group
  unfold masked
  by_cases inside : group < visible
  · rw [same group inside, masks group inside]
  · rw [if_neg fun both => inside both.1, if_neg fun both => inside both.1]

theorem bot_lt_masked :
    ⊥ < masked visible allowed score group ↔ group < visible ∧ allowed group = true := by
  unfold masked
  by_cases both : group < visible ∧ allowed group = true
  · rw [if_pos both]
    exact ⟨fun _ => both, fun _ => bot_lt_finite _⟩
  · rw [if_neg both]
    exact ⟨fun less => absurd less (lt_irrefl _), fun inside => absurd inside both⟩

theorem keptBlocks_congr (topkBlocks blockSize : ℕ) (same : ∀ group < visible, score group = value group) :
    keptBlocks topkBlocks blockSize visible score = keptBlocks topkBlocks blockSize visible value := by
  have masks := masked_congr same fun group _ => (rfl : true = true)
  unfold keptBlocks
  refine congrArg _ (map_congr_left fun block _ => ?_)
  unfold blockScore
  rw [masks]

theorem selectedGroups_congr (topk : ℕ) (same : ∀ group < visible, score group = value group)
    (masks : ∀ group < visible, allowed group = other group) :
    selectedGroups topk visible allowed score = selectedGroups topk visible other value := by
  unfold selectedGroups
  rw [masked_congr same masks]

theorem foldr_bot (count : ℕ) : (replicate count (⊥ : Score F)).foldr max ⊥ = ⊥ := by
  induction count with
  | zero => rfl
  | succ count known =>
    rw [replicate_succ, foldr_cons, known]
    exact max_self ⊥

variable {blockSize : ℕ}

theorem blockScore_beyond {block : ℕ} (beyond : visible ≤ block * blockSize) :
    blockScore blockSize visible score block = ⊥ := by
  unfold blockScore
  rw [if_neg]
  · have none_ : ((range blockSize).map fun offset =>
        masked visible (fun _ => true) score (block * blockSize + offset)) = replicate blockSize ⊥ := by
      refine eq_replicate_iff.mpr ⟨by rw [length_map, length_range], ?_⟩
      exact forall_mem_map.mpr fun offset _ => masked_beyond (beyond.trans (Nat.le_add_right _ _))
    rw [none_]
    exact foldr_bot blockSize
  · rintro ⟨some_, rfl⟩
    have := Nat.div_mul_le_self (visible - 1) blockSize
    omega

/-- **How many groups are selected.** -/
theorem length_selectedGroups (topk visible : ℕ) (allowed : ℕ → Bool) (score : ℕ → F) :
    (selectedGroups topk visible allowed score).length = min topk ((range visible).filter allowed).length := by
  unfold selectedGroups
  rw [length_chosen, shown_range, length_map]
  refine congrArg (fun list : List ℕ => min topk list.length) (filter_congr fun group mem => ?_)
  have inside := mem_range.mp mem
  rw [Bool.eq_iff_iff, decide_eq_true_eq, bot_lt_masked]
  exact ⟨And.right, fun allow => ⟨inside, allow⟩⟩

theorem selectedGroups_zero (topk : ℕ) (allowed : ℕ → Bool) (score : ℕ → F) : selectedGroups topk 0 allowed score = [] := by
  refine length_eq_zero_iff.mp ((length_selectedGroups topk 0 allowed score).trans ?_)
  exact Nat.min_zero topk

theorem mem_keptBlocks {topkBlocks block : ℕ}
    (mem : block ∈ keptBlocks topkBlocks blockSize visible score) :
    block * blockSize < visible := by
  obtain ⟨found, here, above⟩ := mem_chosen mem
  rw [getElem?_map] at here
  obtain ⟨place, inside, rfl⟩ := Option.map_eq_some_iff.mp here
  obtain ⟨within, same⟩ := List.getElem?_eq_some_iff.mp inside
  rw [getElem_range] at same
  by_contra beyond
  rw [← same, blockScore_beyond (not_lt.mp beyond)] at above
  exact lt_irrefl _ above

theorem mem_selectedGroups {topk : ℕ} (mem : group ∈ selectedGroups topk visible allowed score) :
    group < visible ∧ allowed group = true := by
  obtain ⟨found, here, above⟩ := mem_chosen mem
  rw [getElem?_map] at here
  obtain ⟨place, inside, rfl⟩ := Option.map_eq_some_iff.mp here
  obtain ⟨within, same⟩ := List.getElem?_eq_some_iff.mp inside
  rw [getElem_range] at same
  rw [← same] at above
  exact bot_lt_masked.mp above

/-- **A selected group has a higher score than one that is not, or the same score and a lower index.** -/
theorem selectedGroups_highest {topk one two : ℕ} (taken : one ∈ selectedGroups topk visible allowed score)
    (inside : two < visible) (allow : allowed two = true) (left : two ∉ selectedGroups topk visible allowed score) :
    score two < score one ∨ score one = score two ∧ one < two := by
  have listed : ∀ group < visible, allowed group = true → (finite (score group), group) ∈
      shown ((range visible).map (masked visible allowed score)) := by
    intro group within allow
    refine mem_shown.mpr ⟨?_, bot_lt_finite _⟩
    rw [getElem?_map, getElem?_range within, Option.map_some]
    exact congrArg some (if_pos ⟨within, allow⟩)
  obtain ⟨within, first⟩ := mem_selectedGroups taken
  rcases chosen_before (listed one within first) taken (listed two inside allow) left with less | ⟨same, low⟩
  · exact Or.inl (WithTop.coe_lt_coe.mp (WithBot.coe_lt_coe.mp less))
  · refine Or.inr ⟨WithTop.coe_injective (WithBot.coe_injective same), lt_of_le_of_ne low fun equal => left ?_⟩
    rw [← show one = two from equal]
    exact taken

/-! ### Scores of a padded width -/

variable {width : ℕ}

theorem padding_eq (positive : 0 < blockSize) (width : ℕ) :
    ∃ blocks, width + ((-(width : ℤ)) % blockSize).toNat = blocks * blockSize := by
  obtain ⟨pad, padding⟩ := Int.eq_ofNat_of_zero_le (Int.emod_nonneg (-(width : ℤ)) (Int.natCast_pos.mpr positive).ne')
  have whole : (blockSize : ℤ) ∣ ((width + pad : ℕ) : ℤ) := by
    have divides : (blockSize : ℤ) ∣ -(width : ℤ) - -(width : ℤ) % blockSize := Int.dvd_self_sub_emod
    rw [padding, ← dvd_neg] at divides
    rw [show ((width + pad : ℕ) : ℤ) = -(-(width : ℤ) - pad) by push_cast; ring]
    exact divides
  obtain ⟨blocks, full⟩ := Int.natCast_dvd_natCast.mp whole
  rw [Nat.mul_comm] at full
  refine ⟨blocks, ?_⟩
  rw [padding, Int.toNat_natCast]
  exact full

theorem length_blockScores (positive : 0 < blockSize) (scores : List (Score F)) :
    scores.length ≤ (blockScores blockSize scores).length * blockSize := by
  obtain ⟨blocks, full⟩ := padding_eq positive scores.length
  unfold blockScores
  rw [length_map, view, length_map, length_range, length_append, length_replicate, full,
    Nat.mul_div_cancel _ positive]
  omega

theorem length_selectCandidateBlocks (positive : 0 < blockSize) (scores : List (Score F)) (visible : ℤ)
    (topkBlocks : ℕ) :
    (selectCandidateBlocks scores visible topkBlocks blockSize).length = scores.length := by
  have enough := length_blockScores positive scores
  unfold selectCandidateBlocks
  dsimp only
  split_ifs with empty
  · exact empty.symm
  · have each : ∀ keep : List Bool, (keep.flatMap (replicate blockSize)).length = keep.length * blockSize := by
      intro keep
      induction keep with
      | nil => exact (Nat.zero_mul blockSize).symm
      | cons first keep known =>
        rw [flatMap_cons, length_append, length_replicate, known, length_cons, Nat.succ_mul, Nat.add_comm]
    rw [length_take, each, length_scatter, length_replicate, length_map, length_zipIdx]
    exact min_eq_left enough

theorem padded_eq (allowed : ℕ → Bool) (score : ℕ → F) (positive : 0 < blockSize)
    (room : visible ≤ width) :
    ∃ blocks, width ≤ blocks * blockSize ∧ ((range width).map (masked visible allowed score)
        ++ replicate ((-(((range width).map (masked visible allowed score)).length : ℤ)) % blockSize).toNat ⊥)
      = (range (blocks * blockSize)).map (masked visible allowed score) := by
  obtain ⟨blocks, full⟩ := padding_eq positive width
  rw [length_map, length_range]
  refine ⟨blocks, by omega, ?_⟩
  rw [← full, range_add, map_append, map_map]
  congr 1
  refine (eq_replicate_iff.mpr ⟨by rw [length_map, length_range], ?_⟩).symm
  exact forall_mem_map.mpr fun place _ => masked_beyond (room.trans (Nat.le_add_right _ _))

/-- **The candidates of a padded width are the kept blocks of the visible groups.** -/
theorem selectCandidateBlocks_eq (positive : 0 < blockSize) (room : visible ≤ width) (topkBlocks : ℕ) :
    selectCandidateBlocks ((range width).map (masked visible (fun _ => true) score)) visible topkBlocks blockSize
      = (range width).map fun column => decide (column / blockSize ∈ keptBlocks topkBlocks blockSize visible score) := by
  obtain ⟨blocks, enough, padded⟩ := padded_eq (fun _ => true) score positive room
  have marked : ((blockScores blockSize ((range width).map (masked visible (fun _ => true) score))).zipIdx.map
      fun entry => if (entry.2 : ℤ) = ((visible : ℤ) - 1) / blockSize then infinity else entry.1)
        = (range blocks).map (blockScore blockSize visible score) := by
    unfold blockScores
    dsimp only
    rw [padded, length_map, length_range, Nat.mul_div_cancel _ positive, view, map_map, zipIdx_map,
      zipIdx_range, map_map, map_map]
    refine map_congr_left fun block mem => ?_
    have inside := mem_range.mp mem
    have last : (block : ℤ) = ((visible : ℤ) - 1) / blockSize ↔ 0 < visible ∧ block = (visible - 1) / blockSize := by
      by_cases some_ : 0 < visible
      · rw [show ((visible : ℤ) - 1) / blockSize = ((visible - 1) / blockSize : ℕ) by push_cast [some_]; rfl, Nat.cast_inj]
        exact ⟨fun same => ⟨some_, same⟩, And.right⟩
      · have negative : ((visible : ℤ) - 1) / blockSize < 0 := Int.ediv_neg_of_neg_of_pos (by omega) (Int.natCast_pos.mpr positive)
        exact ⟨fun same => absurd same (by omega), fun both => absurd both.1 some_⟩
    refine if_congr last rfl ?_
    show (slice blockSize _ block).foldr max ⊥ = _
    rw [slice_map_range _ (Nat.mul_le_mul_right blockSize inside)]
  have kept : chosen (min topkBlocks blocks) ((range blocks).map (blockScore blockSize visible score))
      = keptBlocks topkBlocks blockSize visible score := by
    have all := chosen_min topkBlocks ((range blocks).map (blockScore blockSize visible score))
    rw [length_map, length_range] at all
    rw [all]
    refine chosen_congr topkBlocks (shown_range_congr (min_le_left blocks visible) (min_le_right blocks visible)
      fun block beyond => blockScore_beyond ?_)
    rcases min_le_iff.mp beyond with many | far
    · exact room.trans (enough.trans (Nat.mul_le_mul_right blockSize many))
    · exact far.trans (Nat.le_mul_of_pos_right block positive)
  unfold selectCandidateBlocks
  dsimp only
  rw [marked, length_map, length_range, length_map, length_range]
  by_cases none_ : width = 0
  · rw [if_pos none_, none_]
    rfl
  · have mask := scatter_chosen (min topkBlocks blocks) ((range blocks).map (blockScore blockSize visible score))
    rw [length_map, length_range, kept] at mask
    unfold selectTopk
    rw [if_neg none_, mask]
    refine ext_getElem? fun column => ?_
    by_cases inside : column < width
    · have row : column / blockSize < blocks := (Nat.div_lt_iff_lt_mul positive).mpr (inside.trans_le enough)
      have repeated := rowAt_repeated positive ((range blocks).map fun block =>
        decide (block ∈ keptBlocks topkBlocks blockSize visible score)) (column : ℤ)
      rw [← Int.natCast_ediv, Model.ContextParallel.rowAt_nat, Model.ContextParallel.rowAt_nat] at repeated
      rw [getElem?_take_of_lt inside, repeated, getElem?_map, getElem?_range row, getElem?_map,
        getElem?_range inside]
      rfl
    · rw [getElem?_eq_none (by rw [length_take]; omega),
        getElem?_eq_none (by rw [length_map, length_range]; omega)]

/-- **The groups that are selected among scores of a padded width.** -/
theorem selected_entries (topk start : ℕ) (room : visible ≤ width) :
    ((selectTopk ((range width).map (masked visible allowed score))
        (min topk ((range width).map (masked visible allowed score)).length)).map fun entry =>
          if ⊥ < entry.1 then (start : ℤ) + entry.2 else -1).filter (fun index => decide (0 ≤ index))
      = (selectedGroups topk visible allowed score).map fun group => ((start + group : ℕ) : ℤ) := by
  have narrow : chosen topk ((range width).map (masked visible allowed score))
      = selectedGroups topk visible allowed score :=
    chosen_congr topk (shown_range_congr room (Nat.le_refl visible) fun place => masked_beyond)
  rw [← narrow, ← chosen_min topk, filter_map]
  unfold chosen selectTopk
  rw [map_map]
  have same : ∀ entry ∈ highest (min topk ((range width).map (masked visible allowed score)).length)
      ((range width).map (masked visible allowed score)),
      ((fun index : ℤ => decide (0 ≤ index)) ∘ fun entry : Score F × ℕ => if ⊥ < entry.1 then (start : ℤ) + entry.2 else -1)
        entry = isShown entry := by
    intro entry _
    unfold isShown
    rw [Function.comp, decide_eq_decide]
    by_cases above : ⊥ < entry.1
    · rw [if_pos above]
      exact ⟨fun _ => above, fun _ => by omega⟩
    · rw [if_neg above]
      exact ⟨fun sign => absurd sign (by decide), fun other => absurd other above⟩
  rw [filter_congr same]
  refine map_congr_left fun entry mem => ?_
  have above := of_decide_eq_true (mem_filter.mp mem).2
  rw [if_pos above]
  push_cast
  rfl

end Sequence

/-! ### The bounds that are searched -/

section Bounds

variable {batch : Batch rows} {row : Fin rows} {token ratio : ℕ} (packed : Packed batch) (positive : 0 < ratio)
  (live : batch.live token row = true)
variable {place : ℕ}

theorem searchable_getD (inside : place < batch.inputIds.length / ratio) :
    (searchableIds (groupIds batch row ratio)).getD place 0
      = if groupId batch row ratio place < 0 then sentinel else groupId batch row ratio place := by
  unfold searchableIds groupIds
  rw [map_map, getD_eq_getElem?_getD, getElem?_map, getElem?_range inside]
  rfl

theorem length_searchable : (searchableIds (groupIds batch row ratio)).length = batch.inputIds.length / ratio := by
  unfold searchableIds groupIds
  rw [length_map, length_map, length_range]

include packed positive live

theorem searchable_before (before : place < firstGroup batch row ratio token) :
    (searchableIds (groupIds batch row ratio)).getD place 0 < batch.sequence token row := by
  obtain ⟨valid, nonneg, less⟩ := groupId_before packed positive live before
  rw [searchable_getD (valid.trans_le (count_groups packed positive row)), if_neg (not_lt.mpr nonneg)]
  exact less

theorem searchable_after (after : firstGroup batch row ratio token ≤ place)
    (inside : place < batch.inputIds.length / ratio) :
    batch.sequence token row ≤ (searchableIds (groupIds batch row ratio)).getD place 0 := by
  rw [searchable_getD inside]
  by_cases valid : place < groupCount batch row ratio
  · have low := groupId_after packed positive live after valid
    rw [if_neg (not_lt.mpr ((packed.nonneg row token live).trans low))]
    exact low
  · rw [groupId_invalid (not_lt.mp valid), if_pos (by decide)]
    exact Int.le_sub_one_of_lt (packed.bounded row token)

/-- **The search finds the first group of the sequence.** -/
theorem keyStart_eq : keyStart (groupIds batch row ratio) (batch.sequence token row) = firstGroup batch row ratio token := by
  have groups := (Nat.le_add_right _ _).trans (firstGroup_add_le packed positive live)
  refine bisect_eq (Nat.zero_le _) ?_ (fun place _ before => ?_) fun place after inside => ?_
  · rw [length_searchable]
    exact groups.trans (count_groups packed positive row)
  · exact decide_eq_true (searchable_before packed positive live before)
  · rw [length_searchable] at inside
    exact decide_eq_false (not_lt.mpr (searchable_after packed positive live after inside))

/-- **The search ends after the groups of the sequence up to the token.** -/
theorem le_sequenceEnd : firstGroup batch row ratio token + visibleGroups batch row ratio token
    ≤ sequenceEnd (groupIds batch row ratio) (batch.sequence token row) := by
  have groups := firstGroup_add_le packed positive live
  refine le_bisect ?_ fun place _ below => decide_eq_true ?_
  · rw [length_searchable]
    exact groups.trans (count_groups packed positive row)
  · by_cases before : place < firstGroup batch row ratio token
    · exact (searchable_before packed positive live before).le
    · obtain ⟨group, rfl⟩ := Nat.exists_eq_add_of_le (not_lt.mp before)
      have visible : group < visibleGroups batch row ratio token := Nat.lt_of_add_lt_add_left below
      have valid := (startOf_own packed positive live visible).1
      have same := ((visible_iff packed positive live).mpr ⟨group, visible, rfl⟩).2.1
      rw [searchable_getD (valid.trans_le (count_groups packed positive row)), same,
        if_neg (not_lt.mpr (packed.nonneg row token live))]

/-- **The visible groups of a query are those of its sequence up to it.** -/
theorem keyEnd_eq : keyEnd ratio (groupIds batch row ratio) (batch.sequence token row) (position batch token row)
    = ((firstGroup batch row ratio token + visibleGroups batch row ratio token : ℕ) : ℤ) := by
  have count : (position batch token row + 1) / (ratio : ℤ) = (visibleGroups batch row ratio token : ℕ) := by
    rw [position_eq live]
    exact_mod_cast rfl
  have last := le_sequenceEnd packed positive live
  unfold keyEnd
  rw [keyStart_eq packed positive live, count]
  dsimp only
  rw [min_eq_right (by exact_mod_cast last)]
  by_cases some_ : 0 < visibleGroups batch row ratio token
  · rw [if_pos ⟨packed.nonneg row token live, by omega⟩]
    push_cast
    rfl
  · rw [if_neg fun both => some_ (by omega), Nat.eq_zero_of_not_pos some_, Nat.add_zero]

/-- **The scores of a query are those of the visible groups of its sequence.** -/
theorem scoresAt_eq (functions : Functions F) (rotary : RotaryEmbedding F config) (indexer : SparseIndexer F config)
    {keys : Fin rows → List (Vec F config.indexHeadDim)} (sized : (keys row).length = batch.inputIds.length / ratio)
    (width index : ℕ) (candidates : Option (Fin rows → List (List Bool))) (x : Fin rows → ℕ → Vec F config.hiddenSize)
    (qResidual : Fin rows → ℕ → Vec F config.qLoraRank) :
    indexer.scoresAt functions rotary batch ratio width (fun row => groupIds batch row ratio) keys candidates x qResidual
        row token index
      = (range width).map (masked (visibleGroups batch row ratio token)
          (fun group => (candidates.map fun masks => (masks row).getD index []).all (·.getD group false))
          fun group => indexer.score functions rotary (position batch token row) (x row token) (qResidual row token)
            ((keys row).getD (firstGroup batch row ratio token + group) fun _ => 0)) := by
  have groups := (firstGroup_add_le packed positive live).trans (count_groups packed positive row)
  unfold SparseIndexer.scoresAt indexScores
  dsimp only
  rw [keyStart_eq packed positive live, keyEnd_eq packed positive live]
  refine map_congr_left fun column _ => ?_
  have bound : ((firstGroup batch row ratio token + column : ℕ) : ℤ)
      < ((firstGroup batch row ratio token + visibleGroups batch row ratio token : ℕ) : ℤ)
        ↔ column < visibleGroups batch row ratio token := by omega
  rw [decide_eq_decide.mpr bound]
  by_cases visible : column < visibleGroups batch row ratio token
  · rw [decide_eq_true visible, Bool.true_and, sized, min_eq_left (by omega)]
    exact if_congr (and_iff_right visible).symm rfl rfl
  · rw [decide_eq_false visible, Bool.false_and, if_neg Bool.false_ne_true]
    exact (if_neg fun both => visible both.1).symm

/-- **The padded width has room for the visible groups of every query.** -/
theorem visible_le_width {queries : List ℕ} (listed : token ∈ queries) : visibleGroups batch row ratio token
    ≤ SparseIndexer.maxSequenceWidth batch queries fun row => groupIds batch row ratio := by
  have last := le_sequenceEnd packed positive live
  have room : visibleGroups batch row ratio token ≤ sequenceEnd (groupIds batch row ratio) (batch.sequence token row)
      - keyStart (groupIds batch row ratio) (batch.sequence token row) := by
    rw [keyStart_eq packed positive live]
    omega
  refine room.trans (le_foldr_max (mem_flatMap.mpr ⟨row, mem_finRange row, ?_⟩))
  exact mem_map.mpr ⟨token, listed, rfl⟩

end Bounds

/-! ### The keys of one sequence -/

section Keys

variable (functions : Functions F) (rotary : RotaryEmbedding F config) (compressor : Compressor F config)
  (indexer : SparseIndexer F config)

def keysOf (batch : Batch rows) (ratio : ℕ) (x : Fin rows → ℕ → Vec F config.hiddenSize) (row : Fin rows) :
    List (Vec F config.indexHeadDim) :=
  (range (batch.inputIds.length / ratio)).map fun group => indexer.key functions rotary
    (groupPosition batch row ratio group) (compressor.latentAt functions batch row ratio (x row) group)

/-- The key of a group of a sequence, whose tokens are counted from the first one. -/
def relativeKey (ratio : ℕ) (x : ℕ → Vec F config.hiddenSize) (group : ℕ) : Vec F config.indexHeadDim :=
  indexer.key functions rotary (group * ratio : ℕ) (rmsNorm functions compressor.norm compressor.rmsNormEps
    (compressor.pooled functions ratio fun token => x (group * ratio + token)))

variable {batch : Batch rows} {row : Fin rows} {token ratio : ℕ} (packed : Packed batch) (positive : 0 < ratio)
  (live : batch.live token row = true)
include positive

variable {y x : ℕ → Vec F config.hiddenSize}

theorem pooled_congr (same : ∀ token < ratio, x token = y token) :
    compressor.pooled functions ratio x = compressor.pooled functions ratio y := by
  unfold Compressor.pooled
  rw [same 0 positive]
  have tokens : ∀ token : Fin ratio, x token = y token := fun token => same token token.2
  simp only [tokens]

theorem relativeKey_congr (same : ∀ token < (group + 1) * ratio, x token = y token) :
    relativeKey functions rotary compressor indexer ratio x group
      = relativeKey functions rotary compressor indexer ratio y group := by
  unfold relativeKey
  rw [pooled_congr functions compressor positive fun token below => same (group * ratio + token) ?_]
  rw [Nat.succ_mul]
  exact Nat.add_lt_add_left below _

include packed live

/-- **The key of a visible group is that of its place in the sequence.** -/
theorem keysOf_own (x : Fin rows → ℕ → Vec F config.hiddenSize)
    (visible : group < visibleGroups batch row ratio token) :
    ((keysOf functions rotary compressor indexer batch ratio x row).getD (firstGroup batch row ratio token + group) fun _ => 0)
      = relativeKey functions rotary compressor indexer ratio
          (fun offset => x row (batch.lastStart token row + offset)) group := by
  obtain ⟨valid, start⟩ := startOf_own packed positive live visible
  have here := completeAt_iff.mp (startOf_complete valid)
  have same := ((visible_iff packed positive live).mpr ⟨group, visible, rfl⟩).2.1
  rw [groupId_valid valid] at same
  have place : groupPosition batch row ratio (firstGroup batch row ratio token + group) = (group * ratio : ℕ) := by
    unfold groupPosition groupValid
    rw [decide_eq_true valid, if_pos rfl, position_eq here.1, lastStart_same packed here.1 live same, start,
      Nat.add_sub_cancel_left]
  have latent : compressor.latentAt functions batch row ratio (x row) (firstGroup batch row ratio token + group)
      = rmsNorm functions compressor.norm compressor.rmsNormEps (compressor.pooled functions ratio fun offset =>
          x row (batch.lastStart token row + (group * ratio + offset))) := by
    unfold Compressor.latentAt groupValid
    rw [decide_eq_true valid, if_pos rfl, start]
    simp only [Nat.add_assoc]
  unfold keysOf
  rw [getD_eq_getElem?_getD, getElem?_map,
    getElem?_range (valid.trans_le (count_groups packed positive row)), Option.map_some, Option.getD_some, place, latent]
  rfl

end Keys

end TinyDSV41.Attention
