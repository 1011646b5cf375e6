/-
**What the layers of a model leave for each other.**

* `attend`, `before`, `after` — what the layers leave for each other, one layer after the other.
* `keySource` — the layer whose keys a layer reads.
* `Holds` — what is left: the keys of that layer, and the candidates of the layer that chooses them.
* `attend_holds`, `after_holds` — a layer leaves what holds, and so does every run of layers.
-/

import TinyDSV41.Attention.SparseIndexer

set_option linter.unusedSectionVars false

namespace TinyDSV41.Attention

open List Lib Option ShadowIndexers SparseIndexer
open Model.ContextParallel (Batch valueAt)
open Qwen (Vec linear viewHeads)

variable {F : Type} [Field F] [LinearOrder F] {config : Config}

/-! ### Layers -/

/-- The weights of a layer of `CSA2Attention`, which are used where the layer is a source. -/
structure CSA2Attention (F : Type) (config : Config) where
  compressor : Compressor F config
  indexer : SparseIndexer F config

structure IndexerModel (F : Type) (config : Config) where
  functions : Functions F
  rotary : RotaryEmbedding F config
  layers : ℕ → CSA2Attention F config

/-- A batch on a rank: the tokens that it has are the queries. Each layer has the rows of its own hidden states. -/
structure Pass (F : Type) (config : Config) where
  rows : ℕ
  batch : Batch rows
  queries : List ℕ
  x : ℕ → Fin rows → ℕ → Vec F config.hiddenSize
  qResidual : ℕ → Fin rows → ℕ → Vec F config.qLoraRank
  packed : Packed batch
  filled : 0 < rows
  asked : queries ≠ []

namespace ShadowIndexers

variable {rows : ℕ}

/-- `Tensor.numel` of lists of rows. -/
def numel {Item : Type} (tensor : Fin rows → List Item) : ℕ := ((finRange rows).map fun row => (tensor row).length).sum

def start : ShadowIndexers F config rows where
  compressedSequenceIds := none
  indexKeys := none
  topkIndices := none
  candidates := none

/-- `ShadowIndexers.load` of what is dumped: empty tensors are none. -/
def reload (shadow : ShadowIndexers F config rows) : ShadowIndexers F config rows where
  compressedSequenceIds := shadow.compressedSequenceIds.filter fun tensor => numel tensor != 0
  indexKeys := shadow.indexKeys.filter fun tensor => numel tensor != 0
  topkIndices := shadow.topkIndices.filter fun tensor => numel (fun row => (tensor row).flatten) != 0
  candidates := shadow.candidates.filter fun tensor => numel (fun row => (tensor row).flatten) != 0

end ShadowIndexers

namespace IndexerModel

variable (model : IndexerModel F config) (pass : Pass F config)

/-- What `CSA2Attention.forward` leaves for the layers after it. -/
def attend (layer : ℕ) (shadow : ShadowIndexers F config pass.rows) : Option (ShadowIndexers F config pass.rows) :=
  let ratio := config.ratio layer
  if ratio = 0 then some shadow
  else
    let owns := decide (layer ∈ config.kvSourceLayerIds)
    let latent := if owns = true then
        (model.layers layer).compressor.latents model.functions pass.batch ratio (pass.x layer)
      else none
    let groupPositions row := if owns = true then
        (range (pass.batch.inputIds.length / ratio)).map (groupPosition pass.batch row ratio)
      else []
    let reset := if owns = true then
        { start with compressedSequenceIds := some fun row => groupIds pass.batch row ratio }
      else shadow
    if layer ∈ config.indexSourceLayerIds then
      (model.layers layer).indexer.forward model.functions model.rotary layer pass.batch pass.queries (pass.x layer)
        (pass.qResidual layer) latent groupPositions reset
    else some reset

def before : ℕ → Option (ShadowIndexers F config pass.rows)
  | 0 => some start.reload
  | layer + 1 => ((before layer).bind (model.attend pass layer)).map reload

def after (layer : ℕ) : Option (ShadowIndexers F config pass.rows) := (model.before pass layer).bind (model.attend pass layer)

end IndexerModel

/-- The last of the first layers that compresses. -/
def Config.keySource (config : Config) : ℕ → Option ℕ
  | 0 => none
  | layer + 1 => if layer ∈ config.kvSourceLayerIds then some layer else config.keySource layer

variable {source : ℕ}

theorem keySource_mem {count : ℕ} (known : config.keySource count = some source) :
    source ∈ config.kvSourceLayerIds ∧ source < count := by
  induction count with
  | zero => cases known
  | succ layer rest =>
    unfold Config.keySource at known
    by_cases owns : layer ∈ config.kvSourceLayerIds
    · rw [if_pos owns] at known
      obtain rfl := some.inj known
      exact ⟨owns, Nat.lt_succ_self _⟩
    · rw [if_neg owns] at known
      exact ⟨(rest known).1, (rest known).2.trans (Nat.lt_succ_self _)⟩

theorem keySource_owner {layer : ℕ} (owns : layer ∈ config.kvSourceLayerIds) : config.keySource (layer + 1) = some layer :=
  if_pos owns

theorem keySource_reader {layer : ℕ} (reads : layer ∉ config.kvSourceLayerIds) :
    config.keySource (layer + 1) = config.keySource layer := if_neg reads

/-! ### What the layers leave -/

namespace IndexerModel

variable (model : IndexerModel F config) (pass : Pass F config)

def ids (source : ℕ) (row : Fin pass.rows) : List ℤ := groupIds pass.batch row (config.ratio source)

def keys (source : ℕ) : Fin pass.rows → List (Vec F config.indexHeadDim) :=
  keysOf model.functions model.rotary (model.layers source).compressor (model.layers source).indexer pass.batch
    (config.ratio source) (pass.x source)

def width (source : ℕ) : ℕ := maxSequenceWidth pass.batch pass.queries (ids pass source)

def scores (source layer : ℕ) (previous : Option (Fin pass.rows → List (List Bool))) (row : Fin pass.rows)
    (token index : ℕ) : List (Score F) :=
  (model.layers layer).indexer.scoresAt model.functions model.rotary pass.batch (config.ratio layer)
    (width pass source) (ids pass source) (model.keys pass source) previous
    (pass.x layer) (pass.qResidual layer) row token index

def masks (source layer : ℕ) (previous : Option (Fin pass.rows → List (List Bool))) (row : Fin pass.rows) :
    List (List Bool) :=
  pass.queries.zipIdx.map fun query => candidatesAt config pass.batch (config.ratio layer)
    (ids pass source) (model.scores pass source layer previous row query.1 query.2) row query.1

def selections (source layer : ℕ) (previous : Option (Fin pass.rows → List (List Bool))) (row : Fin pass.rows) :
    List (List ℤ) :=
  pass.queries.zipIdx.map fun query => topkAt config pass.batch
    (ids pass source) (model.scores pass source layer previous row query.1 query.2) row query.1

def previous (layer : ℕ) (shadow : ShadowIndexers F config pass.rows) : Option (Fin pass.rows → List (List Bool)) :=
  if 0 ≤ config.candidateSourceLayerId ∧ config.candidateSourceLayerId < layer ∧ layer ∉ config.kvSourceLayerIds then
    shadow.candidates
  else none

variable {model pass} {layer : ℕ} {shadow : ShadowIndexers F config pass.rows}

theorem attend_other (owns : layer ∉ config.kvSourceLayerIds) (indexed : layer ∉ config.indexSourceLayerIds) :
    model.attend pass layer shadow = some shadow := by
  unfold attend
  rw [decide_eq_false owns]
  simp only [Bool.false_eq_true, if_false, if_neg indexed]
  exact ite_self _

theorem attend_unindexed (owns : layer ∈ config.kvSourceLayerIds) (indexed : layer ∉ config.indexSourceLayerIds) :
    model.attend pass layer shadow
      = some { start with compressedSequenceIds := some (ids pass layer) } := by
  have positive : config.ratio layer ≠ 0 := (config.kvSources layer owns).ne'
  unfold attend
  rw [decide_eq_true owns]
  simp only [if_true, if_neg indexed, if_neg positive]
  rfl

section

variable (owns : layer ∉ config.kvSourceLayerIds) (indexed : layer ∈ config.indexSourceLayerIds)
include owns indexed

theorem attend_reader_none (empty : shadow.indexKeys = none) :
    model.attend pass layer shadow = some { shadow with
      indexKeys := none, topkIndices := none
      candidates := if (layer : ℤ) = config.candidateSourceLayerId then none else shadow.candidates } := by
  have positive : config.ratio layer ≠ 0 := (config.indexSources layer indexed).1.ne'
  unfold attend
  simp only [if_pos indexed, if_neg positive]
  unfold forward
  simp only [if_neg owns, empty, decide_eq_true_eq]

/-- **A layer that reads keys selects among the groups of their source.** -/
theorem attend_reader (keys : shadow.indexKeys = some (model.keys pass source))
    (groups : shadow.compressedSequenceIds = some (ids pass source)) :
    model.attend pass layer shadow = some {
      compressedSequenceIds := some (ids pass source)
      indexKeys := some (model.keys pass source)
      candidates := if (layer : ℤ) = config.candidateSourceLayerId then
          some (model.masks pass source layer (previous pass layer shadow))
        else shadow.candidates
      topkIndices := some (model.selections pass source layer (previous pass layer shadow)) } := by
  have positive : config.ratio layer ≠ 0 := (config.indexSources layer indexed).1.ne'
  unfold attend
  rw [decide_eq_false owns]
  simp only [Bool.false_eq_true, if_false, if_pos indexed, if_neg positive]
  unfold forward previous
  simp only [keys, groups, decide_eq_true_eq, owns, not_false_eq_true, and_true]
  rfl

end

section

variable (owns : layer ∈ config.kvSourceLayerIds) (indexed : layer ∈ config.indexSourceLayerIds)
include owns indexed

theorem attend_owner_none (empty : pass.batch.inputIds.length / config.ratio layer = 0) :
    model.attend pass layer shadow
      = some { start with compressedSequenceIds := some (ids pass layer) } := by
  have positive : config.ratio layer ≠ 0 := (config.kvSources layer owns).ne'
  unfold attend
  rw [decide_eq_true owns]
  simp only [if_true, if_pos indexed, if_neg positive]
  unfold forward Compressor.latents
  simp only [if_pos owns, empty, if_true, map_none]
  refine congrArg some ?_
  unfold start
  simp only [ite_self]
  rfl

/-- **A source selects among its own groups.** -/
theorem attend_owner (some_ : pass.batch.inputIds.length / config.ratio layer ≠ 0) :
    model.attend pass layer shadow = some {
      compressedSequenceIds := some (ids pass layer)
      indexKeys := some (model.keys pass layer)
      candidates := if (layer : ℤ) = config.candidateSourceLayerId then some (model.masks pass layer layer none) else none
      topkIndices := some (model.selections pass layer layer none) } := by
  have positive : config.ratio layer ≠ 0 := (config.kvSources layer owns).ne'
  have written : (fun row => zipWith ((model.layers layer).indexer.key model.functions model.rotary)
      ((range (pass.batch.inputIds.length / config.ratio layer)).map (groupPosition pass.batch row (config.ratio layer)))
      ((range (pass.batch.inputIds.length / config.ratio layer)).map
        ((model.layers layer).compressor.latentAt model.functions pass.batch row (config.ratio layer) (pass.x layer row))))
        = model.keys pass layer := by
    funext row
    rw [zipWith_map, zipWith_self]
    rfl
  unfold attend
  simp only [if_pos indexed, if_neg positive]
  unfold forward Compressor.latents
  simp only [if_pos owns, if_neg some_, map_some, written, ite_self, decide_eq_true_eq, start]
  rfl

end

end IndexerModel

/-! ### Over all layers -/

namespace ShadowIndexers

variable (row : Fin rows)

theorem numel_ne_zero (some_ : (tensor row).length ≠ 0) : numel tensor ≠ 0 := by
  intro zero
  exact some_ (List.sum_eq_zero_iff_forall_eq_nat.mp zero _ (List.mem_map.mpr ⟨row, List.mem_finRange row, rfl⟩))

theorem filter_numel (some_ : (tensor row).length ≠ 0) :
    (some tensor).filter (fun tensor => numel tensor != 0) = some tensor := by
  refine filter_some_pos ?_
  exact bne_iff_ne.mpr (numel_ne_zero row some_)

theorem filter_flatten {tensor : Fin rows → List (List Item)} (some_ : (tensor row).flatten.length ≠ 0) :
    (some tensor).filter (fun tensor => numel (fun row => (tensor row).flatten) != 0) = some tensor := by
  refine filter_some_pos ?_
  exact bne_iff_ne.mpr (numel_ne_zero row some_)

end ShadowIndexers

/-- What the first layers leave: keys and groups of the last source among them, and the candidates that a layer after
this source has chosen. Nothing is missing unless it is empty. -/
structure Holds (model : IndexerModel F config) (pass : Pass F config) (count : ℕ)
    (shadow : ShadowIndexers F config pass.rows) : Prop where
  keys : ∀ keys, shadow.indexKeys = some keys → ∃ source, config.keySource count = some source
    ∧ source ∈ config.indexSourceLayerIds ∧ pass.batch.inputIds.length / config.ratio source ≠ 0
    ∧ keys = model.keys pass source ∧ shadow.compressedSequenceIds = some (IndexerModel.ids pass source)
  present : ∀ source, config.keySource count = some source → source ∈ config.indexSourceLayerIds →
    pass.batch.inputIds.length / config.ratio source ≠ 0 → shadow.indexKeys ≠ none
  candidates : ∀ masks, shadow.candidates = some masks → ∃ source candidate : ℕ,
    (candidate : ℤ) = config.candidateSourceLayerId ∧ candidate < count ∧ config.keySource count = some source
      ∧ config.keySource (candidate + 1) = some source ∧ masks = model.masks pass source candidate none
  chosen : ∀ source candidate : ℕ, (candidate : ℤ) = config.candidateSourceLayerId → candidate < count →
    config.keySource count = some source → config.keySource (candidate + 1) = some source →
    source ∈ config.indexSourceLayerIds → pass.batch.inputIds.length / config.ratio source ≠ 0 →
    IndexerModel.width pass source ≠ 0 → shadow.candidates ≠ none

namespace IndexerModel

variable {model : IndexerModel F config} {pass : Pass F config} {layer count : ℕ}
  {shadow : ShadowIndexers F config pass.rows}

theorem length_keys (source : ℕ) (row : Fin pass.rows) :
    (model.keys pass source row).length = pass.batch.inputIds.length / config.ratio source := by
  unfold keys keysOf
  rw [length_map, length_range]

theorem length_ids (source : ℕ) (row : Fin pass.rows) :
    (ids pass source row).length = pass.batch.inputIds.length / config.ratio source := by
  unfold ids groupIds
  rw [length_map, length_range]

theorem candidate_indexed {candidate : ℕ} (same : (candidate : ℤ) = config.candidateSourceLayerId) :
    candidate ∈ config.indexSourceLayerIds := by
  obtain ⟨layer, indexed, equal⟩ := config.candidateSource (by omega)
  have : candidate = layer := by omega
  rw [this]
  exact indexed

theorem previous_source (same : (layer : ℤ) = config.candidateSourceLayerId) : previous pass layer shadow = none :=
  if_neg fun reads => absurd reads.2.1 (by omega)

theorem holds_bare (owns : layer ∈ config.kvSourceLayerIds) (empty : layer ∈ config.indexSourceLayerIds →
    pass.batch.inputIds.length / config.ratio layer = 0) : Holds model pass (layer + 1)
      { start with compressedSequenceIds := some (ids pass layer) } := by
  have own := keySource_owner owns
  refine ⟨fun _ there => (nomatch there), fun source known indexed some_ => ?_, fun _ there => (nomatch there),
    fun source _ _ _ known _ indexed some_ => ?_⟩
  all_goals
    obtain rfl := Option.mem_unique own known
    exact absurd (empty indexed) some_

theorem holds_owner (owns : layer ∈ config.kvSourceLayerIds) (indexed : layer ∈ config.indexSourceLayerIds)
    (some_ : pass.batch.inputIds.length / config.ratio layer ≠ 0) : Holds model pass (layer + 1) {
      compressedSequenceIds := some (ids pass layer)
      indexKeys := some (model.keys pass layer)
      candidates := if (layer : ℤ) = config.candidateSourceLayerId then some (model.masks pass layer layer none) else none
      topkIndices := some (model.selections pass layer layer none) } := by
  have own := keySource_owner owns
  refine ⟨fun keys there => ?_, fun _ _ _ _ absent => (nomatch absent), fun masks there => ?_,
    fun source candidate same below known chooses _ _ _ => ?_⟩
  · exact ⟨layer, own, indexed, some_, (some.inj there).symm, rfl⟩
  · split_ifs at there with here
    exact ⟨layer, layer, here, Nat.lt_succ_self layer, own, own, (some.inj there).symm⟩
  · -- Candidates of this source are chosen by this layer itself.
    obtain rfl := Option.mem_unique own known
    have after := (keySource_mem chooses).2
    have here : candidate = layer := by omega
    rw [← here, if_pos same]
    exact some_ne_none _

section

variable (holds : Holds model pass layer shadow) (owns : layer ∉ config.kvSourceLayerIds)
include holds owns

theorem holds_reader_none (empty : shadow.indexKeys = none) : Holds model pass (layer + 1) { shadow with
      indexKeys := none, topkIndices := none
      candidates := if (layer : ℤ) = config.candidateSourceLayerId then none else shadow.candidates } := by
  have reader := keySource_reader owns
  refine ⟨fun _ there => (nomatch there), fun source known indexed some_ _ => ?_, fun masks there => ?_,
    fun source candidate same below known chooses indexed some_ wide => ?_⟩
  · rw [reader] at known
    exact holds.present source known indexed some_ empty
  · split_ifs at there with here
    obtain ⟨source, candidate, same, below, known, chooses, equal⟩ := holds.candidates masks there
    exact ⟨source, candidate, same, below.trans (Nat.lt_succ_self layer), reader.trans known, chooses, equal⟩
  · rw [reader] at known
    exact absurd empty (holds.present source known indexed some_)

theorem holds_reader (known : config.keySource layer = some source)
    (indexed : source ∈ config.indexSourceLayerIds)
    (some_ : pass.batch.inputIds.length / config.ratio source ≠ 0) : Holds model pass (layer + 1) {
      compressedSequenceIds := some (ids pass source)
      indexKeys := some (model.keys pass source)
      candidates := if (layer : ℤ) = config.candidateSourceLayerId then
          some (model.masks pass source layer (previous pass layer shadow))
        else shadow.candidates
      topkIndices := some (model.selections pass source layer (previous pass layer shadow)) } := by
  have reader := (keySource_reader owns).trans known
  refine ⟨fun keys written => ?_, fun _ _ _ _ absent => (nomatch absent), fun masks written => ?_,
    fun other candidate same below chosen chooses more full wide => ?_⟩
  · exact ⟨source, reader, indexed, some_, (some.inj written).symm, rfl⟩
  · split_ifs at written with here
    · rw [previous_source here] at written
      exact ⟨source, layer, here, Nat.lt_succ_self layer, reader, reader, (some.inj written).symm⟩
    · obtain ⟨other, candidate, same, below, chosen, chooses, equal⟩ := holds.candidates masks written
      exact ⟨other, candidate, same, below.trans (Nat.lt_succ_self layer), (keySource_reader owns).trans chosen, chooses, equal⟩
  · by_cases here : (layer : ℤ) = config.candidateSourceLayerId
    · rw [if_pos here]
      exact some_ne_none _
    · rw [if_neg here]
      rw [keySource_reader owns] at chosen
      exact holds.chosen other candidate same (by omega) chosen chooses more full wide

theorem holds_other (indexed : layer ∉ config.indexSourceLayerIds) :
    Holds model pass (layer + 1) shadow := by
  have reader := keySource_reader owns
  refine ⟨fun keys there => ?_, fun source known => ?_, fun masks there => ?_, fun source candidate same below known => ?_⟩
  · rw [reader]
    exact holds.keys keys there
  · rw [reader] at known
    exact holds.present source known
  · obtain ⟨source, candidate, same, below, known, chooses, equal⟩ := holds.candidates masks there
    exact ⟨source, candidate, same, below.trans (Nat.lt_succ_self layer), reader.trans known, chooses, equal⟩
  · rw [reader] at known
    refine holds.chosen source candidate same (lt_of_le_of_ne (Nat.le_of_lt_succ below) fun here => indexed ?_) known
    rw [← here]
    exact candidate_indexed same

end

/-- What a layer selects, if it reads a source. -/
def Written (model : IndexerModel F config) (pass : Pass F config) (layer : ℕ)
    (shadow next : ShadowIndexers F config pass.rows) : Prop :=
  layer ∈ config.indexSourceLayerIds → ∀ source, config.keySource (layer + 1) = some source →
    source ∈ config.indexSourceLayerIds → next.topkIndices
      = if pass.batch.inputIds.length / config.ratio source = 0 then none
        else some (model.selections pass source layer (previous pass layer shadow))

/-- **A layer leaves what holds, if it finds what holds.** -/
theorem attend_holds (holds : Holds model pass layer shadow) : ∃ next, model.attend pass layer shadow = some next
    ∧ Holds model pass (layer + 1) next ∧ Written model pass layer shadow next := by
  by_cases owns : layer ∈ config.kvSourceLayerIds
  · have own := keySource_owner owns
    by_cases indexed : layer ∈ config.indexSourceLayerIds
    · by_cases empty : pass.batch.inputIds.length / config.ratio layer = 0
      · refine ⟨_, attend_owner_none owns indexed empty, holds_bare owns fun _ => empty, fun _ source known _ => ?_⟩
        obtain rfl := Option.mem_unique own known
        rw [if_pos empty]
        rfl
      · refine ⟨_, attend_owner owns indexed empty, holds_owner owns indexed empty, fun _ source known _ => ?_⟩
        obtain rfl := Option.mem_unique own known
        have none_ : previous pass layer shadow = none := if_neg fun reads => reads.2.2 owns
        rw [if_neg empty, none_]
    · exact ⟨_, attend_unindexed owns indexed, holds_bare owns fun there => absurd there indexed,
        fun there => absurd there indexed⟩
  · have reader := keySource_reader owns
    by_cases indexed : layer ∈ config.indexSourceLayerIds
    · rcases found : shadow.indexKeys with _ | keys
      · -- No keys are there: what is read is empty, or its source has no indexer.
        refine ⟨_, attend_reader_none owns indexed found, holds_reader_none holds owns found, fun _ source known there => ?_⟩
        rw [reader] at known
        by_cases empty : pass.batch.inputIds.length / config.ratio source = 0
        · rw [if_pos empty]
        · exact absurd found (holds.present source known there empty)
      · obtain ⟨source, known, there, some_, rfl, groups⟩ := holds.keys keys found
        refine ⟨_, attend_reader owns indexed found groups, holds_reader holds owns known there some_,
          fun _ other chosen _ => ?_⟩
        rw [reader, known] at chosen
        obtain rfl := some.inj chosen
        rw [if_neg some_]
    · exact ⟨shadow, attend_other owns indexed, holds_other holds owns indexed, fun there => absurd there indexed⟩

theorem attend_unkeyed (holds : Holds model pass layer shadow)
    (indexed : layer ∈ config.indexSourceLayerIds) (known : config.keySource (layer + 1) = some source)
    (unkeyed : source ∉ config.indexSourceLayerIds) :
    ∃ next, model.attend pass layer shadow = some next ∧ next.topkIndices = none
      ∧ ((layer : ℤ) = config.candidateSourceLayerId → next.candidates = none) := by
  have owns : layer ∉ config.kvSourceLayerIds := by
    intro owns
    rw [keySource_owner owns] at known
    obtain rfl := some.inj known
    exact unkeyed indexed
  rw [keySource_reader owns] at known
  have empty : shadow.indexKeys = none := by
    by_contra some_
    obtain ⟨keys, found⟩ := ne_none_iff_exists'.mp some_
    obtain ⟨other, there, keyed, -⟩ := holds.keys keys found
    obtain rfl := Option.mem_unique known there
    exact unkeyed keyed
  exact ⟨_, attend_reader_none owns indexed empty, rfl, fun here => if_pos here⟩

theorem masks_flatten (source candidate : ℕ) (row : Fin pass.rows) (wide : width pass source ≠ 0) :
    ((model.masks pass source candidate none row).flatten).length ≠ 0 := by
  obtain ⟨token, rest, first⟩ := exists_cons_of_ne_nil pass.asked
  unfold masks
  rw [first, zipIdx_cons, map_cons, flatten_cons, length_append]
  unfold candidatesAt
  rw [length_selectCandidateBlocks config.blocked]
  unfold scores scoresAt indexScores
  rw [length_map, length_range]
  omega

theorem reload_keys_some {keys : Fin pass.rows → List (Vec F config.indexHeadDim)} (found : shadow.indexKeys = some keys)
    (row : Fin pass.rows) (some_ : (keys row).length ≠ 0) : shadow.reload.indexKeys = some keys := by
  show shadow.indexKeys.filter _ = _
  rw [found]
  exact filter_numel row some_

/-- **Nothing that holds is lost between layers.** -/
theorem reload_holds (holds : Holds model pass count shadow) : Holds model pass count shadow.reload := by
  have row : Fin pass.rows := ⟨0, pass.filled⟩
  refine ⟨fun keys there => ?_, fun source known indexed some_ => ?_, fun masks there => ?_,
    fun source candidate same below known chooses indexed some_ wide => ?_⟩
  · obtain ⟨found, -⟩ := filter_eq_some_iff.mp there
    obtain ⟨source, known, indexed, some_, equal, groups⟩ := holds.keys keys found
    refine ⟨source, known, indexed, some_, equal, ?_⟩
    show shadow.compressedSequenceIds.filter _ = _
    rw [groups]
    exact filter_numel row (by rw [length_ids]; exact some_)
  · obtain ⟨keys, found⟩ := ne_none_iff_exists'.mp (holds.present source known indexed some_)
    obtain ⟨other, there, -, full, rfl, -⟩ := holds.keys keys found
    rw [reload_keys_some found row (by rw [length_keys]; exact full)]
    exact some_ne_none _
  · obtain ⟨found, -⟩ := filter_eq_some_iff.mp there
    exact holds.candidates masks found
  · obtain ⟨masks, found⟩ := ne_none_iff_exists'.mp (holds.chosen source candidate same below known chooses indexed
      some_ wide)
    obtain ⟨other, chooser, -, -, there, -, rfl⟩ := holds.candidates masks found
    obtain rfl := Option.mem_unique known there
    show shadow.candidates.filter _ ≠ none
    rw [found, filter_flatten row (masks_flatten source chooser row wide)]
    exact some_ne_none _

/-- **What a layer finds holds, whatever layers there are.** -/
theorem before_holds (model : IndexerModel F config) (pass : Pass F config) (count : ℕ) :
    ∃ shadow, model.before pass count = some shadow ∧ Holds model pass count shadow := by
  induction count with
  | zero => exact ⟨_, rfl, reload_holds ⟨fun _ there => (nomatch there), fun _ known => (nomatch known),
      fun _ there => (nomatch there), fun _ _ _ below => absurd below (Nat.not_lt_zero _)⟩⟩
  | succ layer known =>
    obtain ⟨shadow, found, holds⟩ := known
    obtain ⟨next, attended, held, -⟩ := attend_holds holds
    refine ⟨next.reload, ?_, reload_holds held⟩
    unfold before
    rw [found, bind_some, attended, map_some]

/-- **What a layer leaves holds, and what it selects is what its source offers.** -/
theorem after_holds (model : IndexerModel F config) (pass : Pass F config) (layer : ℕ) : ∃ shadow next,
    model.before pass layer = some shadow ∧ Holds model pass layer shadow ∧ model.after pass layer = some next
      ∧ Holds model pass (layer + 1) next ∧ Written model pass layer shadow next := by
  obtain ⟨shadow, found, holds⟩ := before_holds model pass layer
  obtain ⟨next, attended, held, written⟩ := attend_holds holds
  refine ⟨shadow, next, found, holds, ?_, held, written⟩
  unfold after
  rw [found, bind_some, attended]

end IndexerModel

end TinyDSV41.Attention
