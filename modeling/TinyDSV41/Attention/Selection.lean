/-
**What the queries of a model select, and what it depends on.**

* `Query` — a live token that a rank has.
* `Selects` — a query selects the best of the visible groups of its own sequence.
* `candidate_iff` — the candidates that a query reads are the kept blocks of its sequence.
* `SamePrefix` — two queries whose sequences agree up to them.
* `indexer_selection` — every query selects such groups, and queries whose sequences agree up to them select the same.
-/

import TinyDSV41.Attention.IndexerRuns

set_option linter.unusedSectionVars false

namespace TinyDSV41.Attention

open List Lib SparseIndexer
open Option (getD_some map_some some)
open Model.ContextParallel (Batch)
open Qwen (Vec)

variable {F : Type} [Field F] [LinearOrder F] {config : Config}

/-- A live token of a row, and its index among the queries. -/
structure Pass.Query (pass : Pass F config) where
  row : Fin pass.rows
  index : ℕ
  token : ℕ
  listed : pass.queries[index]? = some token
  live : pass.batch.live token row = true

namespace Pass.Query

variable {pass : Pass F config} (query : pass.Query)

def first : ℕ := pass.batch.lastStart query.token query.row

def offset : ℕ := query.token - query.first

/-- How many groups of the sequence end up to the token. -/
def visible (source : ℕ) : ℕ := visibleGroups pass.batch query.row (config.ratio source) query.token

/-- The group of the row with which the sequence begins. -/
def firstGroup (source : ℕ) : ℕ := Attention.firstGroup pass.batch query.row (config.ratio source) query.token

/-- Whether a group of the sequence is among the candidates. -/
def isCandidate (masks : Option (Fin pass.rows → List (List Bool))) (group : ℕ) : Bool :=
  (masks.map fun masks => (masks query.row).getD query.index []).all (·.getD group false)

def selected (shadow : ShadowIndexers F config pass.rows) : List ℤ :=
  ((shadow.topkIndices.map fun indices => (indices query.row).getD query.index []).getD []).filter fun index => decide (0 ≤ index)

def mask (shadow : ShadowIndexers F config pass.rows) : List Bool :=
  (shadow.candidates.map fun masks => (masks query.row).getD query.index []).getD []

end Pass.Query

namespace IndexerModel

variable (model : IndexerModel F config) {pass : Pass F config}

def score (source layer : ℕ) (query : pass.Query) (group : ℕ) : F :=
  (model.layers layer).indexer.score model.functions model.rotary (query.offset : ℕ) (pass.x layer query.row query.token)
    (pass.qResidual layer query.row query.token)
    (relativeKey model.functions model.rotary (model.layers source).compressor (model.layers source).indexer
      (config.ratio source) (fun offset => pass.x source query.row (query.first + offset)) group)

def kept (source layer : ℕ) (query : pass.Query) : List ℕ :=
  keptBlocks config.candidateTopkBlocks config.candidateBlockSize (query.visible source) (model.score source layer query)

variable {model} {source layer : ℕ} {query : pass.Query}

theorem position_query (query : pass.Query) : position pass.batch query.token query.row = (query.offset : ℕ) :=
  position_eq query.live

/-- **The scores of a query are those of the groups of its sequence.** -/
theorem scores_query (positive : 0 < config.ratio source) (shares : config.ratio layer = config.ratio source)
    (masks : Option (Fin pass.rows → List (List Bool))) (query : pass.Query) :
    model.scores pass source layer masks query.row query.token query.index = (range (width pass source)).map
      (masked (query.visible source) (query.isCandidate masks) (model.score source layer query)) := by
  unfold scores
  rw [shares]
  refine (scoresAt_eq pass.packed positive query.live _ _ _ (length_keys source query.row) _ _ _ _ _).trans ?_
  refine map_congr_left fun column _ => ?_
  refine congrFun (masked_congr (fun group visible => ?_) fun group _ => rfl) column
  rw [position_query]
  unfold score keys
  rw [keysOf_own _ _ _ _ pass.packed positive query.live _ visible]
  rfl

theorem getD_queries {Item : Type} (value : ℕ × ℕ → List Item) (query : pass.Query) :
    (pass.queries.zipIdx.map value).getD query.index [] = value (query.token, query.index) := by
  have found := query.listed
  rw [getD_eq_getElem?_getD, getElem?_map, getElem?_zipIdx, found, Nat.zero_add]
  rfl

theorem visible_le (positive : 0 < config.ratio source) (query : pass.Query) :
    query.visible source ≤ width pass source :=
  visible_le_width pass.packed positive query.live (mem_of_getElem? query.listed)

theorem visible_empty (positive : 0 < config.ratio source) (query : pass.Query)
    (empty : pass.batch.inputIds.length / config.ratio source = 0) : query.visible source = 0 := by
  have groups := (firstGroup_add_le pass.packed positive query.live).trans (count_groups pass.packed positive query.row)
  unfold Pass.Query.visible
  omega

/-- **What a query selects.** -/
theorem selected_query {shadow next : ShadowIndexers F config pass.rows} (written : Written model pass layer shadow next)
    (indexed : layer ∈ config.indexSourceLayerIds) (known : config.keySource (layer + 1) = some source)
    (keyed : source ∈ config.indexSourceLayerIds) (shares : config.ratio layer = config.ratio source) (query : pass.Query) :
    query.selected next = (selectedGroups config.indexTopk (query.visible source)
      (query.isCandidate (previous pass layer shadow)) (model.score source layer query)).map
        fun group => ((query.firstGroup source + group : ℕ) : ℤ) := by
  have positive : 0 < config.ratio source := (config.indexSources source keyed).1
  unfold Pass.Query.selected
  rw [written indexed source known keyed]
  by_cases empty : pass.batch.inputIds.length / config.ratio source = 0
  · rw [if_pos empty, visible_empty positive query empty, selectedGroups_zero]
    rfl
  · rw [if_neg empty, map_some, getD_some]
    unfold selections
    rw [getD_queries]
    unfold topkAt ids
    rw [scores_query positive shares, keyStart_eq pass.packed positive query.live]
    exact selected_entries config.indexTopk _ (visible_le positive query)

/-! ### Candidates -/

/-- **The mask of a query has the kept blocks of its sequence.** -/
theorem mask_query (keyed : source ∈ config.indexSourceLayerIds) (shares : config.ratio layer = config.ratio source)
    (query : pass.Query) : (model.masks pass source layer none query.row).getD query.index []
      = (range (width pass source)).map fun column =>
        decide (column / config.candidateBlockSize ∈ model.kept source layer query) := by
  have positive : 0 < config.ratio source := (config.indexSources source keyed).1
  have room := visible_le positive query
  have count : keyEnd (config.ratio source) (ids pass source query.row) (pass.batch.sequence query.token query.row)
      (position pass.batch query.token query.row) - keyStart (ids pass source query.row)
        (pass.batch.sequence query.token query.row) = (query.visible source : ℕ) := by
    unfold ids
    rw [keyEnd_eq pass.packed positive query.live, keyStart_eq pass.packed positive query.live]
    unfold Pass.Query.visible
    omega
  unfold masks
  rw [getD_queries]
  unfold candidatesAt
  dsimp only
  rw [scores_query positive shares, shares, count]
  exact selectCandidateBlocks_eq config.blocked room config.candidateTopkBlocks

def Keeps (config : Config) (mask : List Bool) (block : ℕ) : Prop :=
  ∃ column : ℕ, mask[column]? = some true ∧ column / config.candidateBlockSize = block

theorem keeps_kept (positive : 0 < config.ratio source) {block : ℕ} : Keeps config ((range (width pass source)).map
    fun column => decide (column / config.candidateBlockSize ∈ model.kept source layer query)) block
      ↔ block ∈ model.kept source layer query := by
  constructor
  · rintro ⟨column, found, rfl⟩
    rw [getElem?_map] at found
    obtain ⟨place, inside, same⟩ := Option.map_eq_some_iff.mp found
    obtain ⟨within, equal⟩ := List.getElem?_eq_some_iff.mp inside
    rw [getElem_range] at equal
    rw [equal]
    exact of_decide_eq_true same
  · intro mem
    have inside := (mem_keptBlocks mem).trans_le (visible_le positive query)
    refine ⟨block * config.candidateBlockSize, ?_, Nat.mul_div_cancel _ config.blocked⟩
    rw [getElem?_map, getElem?_range inside, map_some, Nat.mul_div_cancel _ config.blocked]
    exact congrArg some (decide_eq_true mem)

/-- **The candidates that a layer leaves are the kept blocks of the sequence.** -/
theorem keeps_iff {next : ShadowIndexers F config pass.rows} (holds : Holds model pass (layer + 1) next)
    (chooses : (layer : ℤ) = config.candidateSourceLayerId) (known : config.keySource (layer + 1) = some source)
    (keyed : source ∈ config.indexSourceLayerIds) (shares : config.ratio layer = config.ratio source) (query : pass.Query)
    {block : ℕ} : Keeps config (query.mask next) block ↔ block ∈ model.kept source layer query := by
  have positive : 0 < config.ratio source := (config.indexSources source keyed).1
  unfold Pass.Query.mask
  rcases found : next.candidates with _ | masks
  · -- No candidates are left only if no group is visible.
    have none_ : query.visible source = 0 := by
      by_contra some_
      refine holds.chosen source layer chooses (Nat.lt_succ_self layer) known known keyed (fun empty => ?_) (fun narrow => ?_) found
      · exact some_ (visible_empty positive query empty)
      · have room := visible_le positive query
        omega
    constructor
    · rintro ⟨column, there, -⟩
      cases there
    · intro mem
      have inside := mem_keptBlocks mem
      omega
  · obtain ⟨other, candidate, same, -, there, -, rfl⟩ := holds.candidates masks found
    obtain rfl := Option.mem_unique known there
    obtain rfl : candidate = layer := by omega
    rw [map_some, getD_some, mask_query keyed shares]
    exact keeps_kept positive

/-- The layer whose candidates a layer reads. -/
def candidateLayer (config : Config) (source layer : ℕ) : Option ℕ :=
  if 0 ≤ config.candidateSourceLayerId ∧ config.candidateSourceLayerId < layer
      ∧ config.keySource (config.candidateSourceLayerId.toNat + 1) = some source then
    some config.candidateSourceLayerId.toNat
  else none

theorem candidateLayer_some {candidate : ℕ} (found : candidateLayer config source layer = some candidate) :
    (candidate : ℤ) = config.candidateSourceLayerId ∧ candidate < layer ∧ config.keySource (candidate + 1) = some source := by
  unfold candidateLayer at found
  split_ifs at found with reads
  obtain ⟨nonneg, below, chooses⟩ := reads
  obtain rfl := some.inj found
  exact ⟨Int.toNat_of_nonneg nonneg, by omega, chooses⟩

theorem candidateLayer_none {candidate : ℕ} (none_ : candidateLayer config source layer = none)
    (same : (candidate : ℤ) = config.candidateSourceLayerId) (below : candidate < layer) :
    config.keySource (candidate + 1) ≠ some source := by
  intro chooses
  unfold candidateLayer at none_
  split_ifs at none_ with reads
  refine reads ⟨by omega, by omega, ?_⟩
  rw [← same, Int.toNat_natCast]
  exact chooses

def isKept (model : IndexerModel F config) (source layer : ℕ) (query : pass.Query) (group : ℕ) : Bool :=
  match candidateLayer config source layer with
  | none => true
  | some candidate => decide (group / config.candidateBlockSize ∈ model.kept source candidate query)

/-- **The candidates that a layer reads are the kept blocks of the sequence.** -/
theorem candidate_iff {shadow : ShadowIndexers F config pass.rows} (holds : Holds model pass layer shadow)
    (known : config.keySource (layer + 1) = some source) (keyed : source ∈ config.indexSourceLayerIds)
    (shares : ∀ candidate, candidateLayer config source layer = some candidate →
      config.ratio candidate = config.ratio source) {group : ℕ} (visible : group < query.visible source) :
    query.isCandidate (previous pass layer shadow) group = model.isKept source layer query group := by
  have positive : 0 < config.ratio source := (config.indexSources source keyed).1
  have room := visible_le positive query
  have wide : width pass source ≠ 0 := by omega
  have full : pass.batch.inputIds.length / config.ratio source ≠ 0 := fun empty => by
    rw [visible_empty positive query empty] at visible
    exact absurd visible (Nat.not_lt_zero group)
  unfold isKept
  rcases reads : candidateLayer config source layer with _ | candidate
  · -- What the layer finds, if anything, is of another source.
    have none_ : previous pass layer shadow = none := by
      unfold previous
      split_ifs with uses
      · by_contra some_
        obtain ⟨masks, found⟩ := Option.ne_none_iff_exists'.mp some_
        obtain ⟨other, candidate, same, below, there, chooses, -⟩ := holds.candidates masks found
        rw [keySource_reader uses.2.2, there] at known
        obtain rfl := some.inj known
        exact candidateLayer_none reads same below chooses
      · rfl
    rw [none_]
    rfl
  · obtain ⟨same, below, chooses⟩ := candidateLayer_some reads
    have owns : layer ∉ config.kvSourceLayerIds := by
      intro owns
      rw [keySource_owner owns] at known
      obtain rfl := some.inj known
      have := (keySource_mem chooses).2
      omega
    have before := known
    rw [keySource_reader owns] at before
    have uses : previous pass layer shadow = shadow.candidates := if_pos ⟨by omega, by omega, owns⟩
    obtain ⟨masks, found⟩ := Option.ne_none_iff_exists'.mp
      (holds.chosen source candidate same below before chooses keyed full wide)
    obtain ⟨other, chooser, equal, -, there, -, rfl⟩ := holds.candidates masks found
    obtain rfl := Option.mem_unique before there
    obtain rfl : chooser = candidate := by omega
    rw [uses, found]
    show ((model.masks pass source chooser none query.row).getD query.index []).getD group false = _
    rw [mask_query keyed (shares chooser reads), getD_eq_getElem?_getD, getElem?_map,
      getElem?_range (visible.trans_le room)]
    rfl

end IndexerModel

/-! ### Queries whose sequences agree -/

/-- The sequences of two queries agree up to the queries, in all layers up to one. -/
structure SamePrefix (layer : ℕ) {one two : Pass F config} (here : one.Query) (there : two.Query) : Prop where
  offset : here.offset = there.offset
  x : ∀ other ≤ layer, ∀ offset ≤ here.offset,
    one.x other here.row (here.first + offset) = two.x other there.row (there.first + offset)
  qResidual : ∀ other ≤ layer, one.qResidual other here.row here.token = two.qResidual other there.row there.token

namespace SamePrefix

variable {model : IndexerModel F config} {source layer : ℕ} {one two : Pass F config} {here : one.Query} {there : two.Query}
  (same : SamePrefix layer here there)
include same

theorem visible : here.visible source = there.visible source := congrArg (fun offset => (offset + 1) / config.ratio source) same.offset

section

variable (positive : 0 < config.ratio source) (before : source ≤ layer)
include positive before

theorem score {other : ℕ} (upto : other ≤ layer) {group : ℕ} (visible : group < here.visible source) :
    model.score source other here group = model.score source other there group := by
  have ends : (group + 1) * config.ratio source ≤ here.offset + 1 := (Nat.le_div_iff_mul_le positive).mp visible
  have first : here.first + here.offset = here.token := Nat.add_sub_cancel' (lastStart_le _ _ _)
  have second : there.first + here.offset = there.token := by
    rw [same.offset]
    exact Nat.add_sub_cancel' (lastStart_le _ _ _)
  have token := same.x other upto here.offset (Nat.le_refl _)
  rw [first, second] at token
  unfold IndexerModel.score
  rw [token, same.qResidual other upto, same.offset]
  refine congrArg _ (relativeKey_congr _ _ _ _ positive fun offset below => ?_)
  exact same.x source before offset (by omega)

theorem kept {other : ℕ} (upto : other ≤ layer) :
    model.kept source other here = model.kept source other there := by
  unfold IndexerModel.kept
  rw [← same.visible]
  exact keptBlocks_congr _ _ fun group => same.score positive before upto

theorem isKept (group : ℕ) :
    model.isKept source layer here group = model.isKept source layer there group := by
  unfold IndexerModel.isKept
  rcases reads : IndexerModel.candidateLayer config source layer with _ | candidate
  · rfl
  · have below := (IndexerModel.candidateLayer_some reads).2.1
    dsimp only
    rw [same.kept positive before below.le]

end

end SamePrefix

/-! ### What queries select -/

/-- The score of a key of a row for a query. -/
def IndexerModel.keyScore (model : IndexerModel F config) {pass : Pass F config} (source layer : ℕ) (query : pass.Query)
    (group : ℕ) : F :=
  (model.layers layer).indexer.score model.functions model.rotary (position pass.batch query.token query.row)
    (pass.x layer query.row query.token) (pass.qResidual layer query.row query.token)
    ((model.keys pass source query.row).getD (query.firstGroup source + group) fun _ => 0)

/-- A query selects groups, which are counted from the first one of its sequence. -/
structure Selects (model : IndexerModel F config) {pass : Pass F config} (source layer : ℕ) (query : pass.Query)
    (masks : Option (Fin pass.rows → List (List Bool))) (indices : List ℤ) (selected : List ℕ) : Prop where
  indices_eq : indices = selected.map fun group => ((query.firstGroup source + group : ℕ) : ℤ)
  distinct : selected.Nodup
  /-- The visible groups are those of the sequence that end up to the query. -/
  visible : ∀ group, (group < groupCount pass.batch query.row (config.ratio source)
      ∧ groupId pass.batch query.row (config.ratio source) group = pass.batch.sequence query.token query.row
      ∧ startOf pass.batch query.row (config.ratio source) group + config.ratio source ≤ query.token + 1)
    ↔ ∃ offset < query.visible source, group = query.firstGroup source + offset
  /-- The tokens of a selected group are live ones of the sequence, up to the query. -/
  tokens : ∀ group ∈ selected, ∀ place < config.ratio source, ∀ token,
    token = startOf pass.batch query.row (config.ratio source) (query.firstGroup source + group) + place →
      token ≤ query.token ∧ pass.batch.live token query.row = true
        ∧ pass.batch.sequence token query.row = pass.batch.sequence query.token query.row
  candidates : ∀ group ∈ selected, group < query.visible source ∧ query.isCandidate masks group = true
  count : selected.length
    = min config.indexTopk ((range (query.visible source)).filter (query.isCandidate masks)).length
  /-- What is not selected has a lower score, or the same score and a higher index. -/
  highest : ∀ group ∈ selected, ∀ other < query.visible source, query.isCandidate masks other = true → other ∉ selected →
    model.keyScore source layer query other < model.keyScore source layer query group
      ∨ model.keyScore source layer query group = model.keyScore source layer query other ∧ group < other

/-- Groups of a row, counted from the first one of a sequence. -/
def Pass.Query.relative {pass : Pass F config} (query : pass.Query) (source : ℕ) (indices : List ℤ) : List ℤ :=
  indices.map fun index => index - query.firstGroup source

namespace IndexerModel

variable {model : IndexerModel F config} {pass : Pass F config} {source layer : ℕ} {query : pass.Query}

theorem keyScore_eq (positive : 0 < config.ratio source) {group : ℕ} (visible : group < query.visible source) :
    model.keyScore source layer query group = model.score source layer query group := by
  unfold keyScore score keys
  rw [position_query]
  refine congrArg _ ?_
  exact keysOf_own _ _ _ _ pass.packed positive query.live _ visible

theorem selects_query {masks : Option (Fin pass.rows → List (List Bool))} (positive : 0 < config.ratio source) :
    Selects model source layer query masks
      ((selectedGroups config.indexTopk (query.visible source) (query.isCandidate masks)
        (model.score source layer query)).map fun group => ((query.firstGroup source + group : ℕ) : ℤ))
      (selectedGroups config.indexTopk (query.visible source) (query.isCandidate masks) (model.score source layer query)) where
  indices_eq := rfl
  distinct := chosen_nodup _ _
  visible _ := visible_iff pass.packed positive query.live
  tokens group mem place below token same := by
    obtain ⟨inside, -⟩ := mem_selectedGroups mem
    obtain ⟨-, start⟩ := startOf_own pass.packed positive query.live inside
    have begins := lastStart_begins pass.packed query.live
    have ends : (group + 1) * config.ratio source ≤ query.token - pass.batch.lastStart query.token query.row + 1 :=
      (Nat.le_div_iff_mul_le positive).mp inside
    have order := begins.le
    rw [Nat.succ_mul] at ends
    have here : token = pass.batch.lastStart query.token query.row + group * config.ratio source + place := by
      rw [same, ← start]
      rfl
    have upto : token ≤ query.token := by omega
    exact ⟨upto, pass.packed.padded query.row token query.token upto query.live, begins.same token (by omega) upto⟩
  candidates _ := mem_selectedGroups
  count := length_selectedGroups _ _ _ _
  highest group mem other inside allow left := by
    rw [keyScore_eq positive (mem_selectedGroups mem).1, keyScore_eq positive inside]
    exact selectedGroups_highest mem inside allow left

theorem relative_selected (selected : List ℕ) : query.relative source
    (selected.map fun group => ((query.firstGroup source + group : ℕ) : ℤ)) = selected.map fun (group : ℕ) => (group : ℤ) := by
  unfold Pass.Query.relative
  rw [map_map]
  refine map_congr_left fun group _ => ?_
  show ((query.firstGroup source + group : ℕ) : ℤ) - query.firstGroup source = group
  omega

theorem after_unkeyed (model : IndexerModel F config) (pass : Pass F config) (indexed : layer ∈ config.indexSourceLayerIds)
    (known : config.keySource (layer + 1) = some source) (unkeyed : source ∉ config.indexSourceLayerIds) :
    ∃ shadow next, model.before pass layer = some shadow ∧ model.after pass layer = some next ∧ next.topkIndices = none
      ∧ ((layer : ℤ) = config.candidateSourceLayerId → next.candidates = none) := by
  obtain ⟨shadow, found, holds⟩ := before_holds model pass layer
  obtain ⟨next, attended, empty, chosen⟩ := attend_unkeyed holds indexed known unkeyed
  refine ⟨shadow, next, found, ?_, empty, chosen⟩
  unfold after
  rw [found, Option.bind_some, attended]

theorem selected_none {next : ShadowIndexers F config pass.rows} (empty : next.topkIndices = none) :
    query.selected next = [] := by
  unfold Pass.Query.selected
  rw [empty]
  rfl

/-- **What a query selects, counted from the first group, is determined by its sequence up to it.** -/
theorem relative_query {shadow next : ShadowIndexers F config pass.rows}
    (holds : Holds model pass layer shadow) (written : Written model pass layer shadow next)
    (indexed : layer ∈ config.indexSourceLayerIds) (known : config.keySource (layer + 1) = some source)
    (keyed : source ∈ config.indexSourceLayerIds) (shares : config.ratio layer = config.ratio source)
    (candidates : ∀ candidate, candidateLayer config source layer = some candidate →
      config.ratio candidate = config.ratio source) (query : pass.Query) :
    query.relative source (query.selected next) = (selectedGroups config.indexTopk (query.visible source)
      (model.isKept source layer query) (model.score source layer query)).map fun (group : ℕ) => (group : ℤ) := by
  rw [selected_query written indexed known keyed shares query, relative_selected]
  refine congrArg _ (selectedGroups_congr _ (fun _ _ => rfl) fun group visible => ?_)
  exact candidate_iff holds known keyed candidates visible

end IndexerModel

open IndexerModel

/-- **In every layer that has the ratio of its source, every query selects as many of the visible groups of its own
sequence as it may, the best ones, and nothing if the source has no keys. Queries whose sequences agree up to them
select the same, and keep the same candidates, in whatever batches they are.** -/
theorem indexer_selection (model : IndexerModel F config) {source layer : ℕ} (indexed : layer ∈ config.indexSourceLayerIds)
    (known : config.keySource (layer + 1) = some source) (shares : config.ratio layer = config.ratio source) :
    (∀ (pass : Pass F config) (query : pass.Query), ∃ shadow next,
      model.before pass layer = some shadow ∧ model.after pass layer = some next
        ∧ (source ∈ config.indexSourceLayerIds → ∃ selected,
          Selects model source layer query (previous pass layer shadow) (query.selected next) selected)
        ∧ (source ∉ config.indexSourceLayerIds → query.selected next = []))
    ∧ ((∀ candidate, candidateLayer config source layer = some candidate → config.ratio candidate = config.ratio source) →
      ∀ (one two : Pass F config) (here : one.Query) (there : two.Query), SamePrefix layer here there →
        ∀ left right, model.after one layer = some left → model.after two layer = some right →
          here.relative source (here.selected left) = there.relative source (there.selected right)
            ∧ ((layer : ℤ) = config.candidateSourceLayerId → ∀ block,
              Keeps config (here.mask left) block ↔ Keeps config (there.mask right) block)) := by
  have before : source ≤ layer := Nat.le_of_lt_succ (keySource_mem known).2
  constructor
  · intro pass query
    by_cases keyed : source ∈ config.indexSourceLayerIds
    · obtain ⟨shadow, next, found, -, left, -, written⟩ := after_holds model pass layer
      refine ⟨shadow, next, found, left, fun _ => ?_, absurd keyed⟩
      rw [selected_query written indexed known keyed shares query]
      exact ⟨_, selects_query (config.indexSources source keyed).1⟩
    · obtain ⟨shadow, next, found, left, empty, -⟩ := after_unkeyed model pass indexed known keyed
      exact ⟨shadow, next, found, left, fun there => absurd there keyed, fun _ => selected_none empty⟩
  · intro candidates one two here there same left right first second
    by_cases keyed : source ∈ config.indexSourceLayerIds
    · have positive : 0 < config.ratio source := (config.indexSources source keyed).1
      obtain ⟨shadow, next, -, holds, leaves, held, written⟩ := after_holds model one layer
      obtain ⟨other, last, -, holds', leaves', held', written'⟩ := after_holds model two layer
      obtain rfl := Option.mem_unique leaves first
      obtain rfl := Option.mem_unique leaves' second
      constructor
      · rw [relative_query holds written indexed known keyed shares candidates here,
          relative_query holds' written' indexed known keyed shares candidates there, ← same.visible]
        refine congrArg _ (selectedGroups_congr _ (fun group visible => ?_) fun group _ => same.isKept positive before group)
        exact same.score positive before (Nat.le_refl layer) visible
      · intro chooses block
        rw [keeps_iff held chooses known keyed shares here, keeps_iff held' chooses known keyed shares there,
          same.kept positive before (Nat.le_refl layer)]
    · obtain ⟨-, next, -, leaves, empty, chosen⟩ := after_unkeyed model one indexed known keyed
      obtain ⟨-, last, -, leaves', empty', chosen'⟩ := after_unkeyed model two indexed known keyed
      obtain rfl := Option.mem_unique leaves first
      obtain rfl := Option.mem_unique leaves' second
      constructor
      · rw [selected_none empty, selected_none empty']
        rfl
      · intro chooses block
        unfold Pass.Query.mask
        rw [chosen chooses, chosen' chooses]
        rfl

/-! ### A small model -/

/-- Two layers that pool pairs of tokens; the second one reads the candidates of the first. -/
def pairConfig : Config where
  hiddenSize := 1
  headDim := 1
  qLoraRank := 1
  ropePairs := 0
  compressRatios := [2, 2]
  kvSourceLayerIds := [0]
  indexSourceLayerIds := [0, 1]
  candidateSourceLayerId := 0
  candidateTopkBlocks := 1
  candidateBlockSize := 2
  indexNHeads := 1
  indexPlainDim := 1
  indexTopk := 1
  blocked := Nat.two_pos
  kvSources := by decide
  indexSources := by decide
  candidateSource := by decide

/-- The functions at the numbers that occur: no gate prefers a token, and norms are of 1 and 4. -/
def pairFunctions : Functions ℚ where
  exp _ := 1
  rsqrt value := if value = 4 then 1 / 2 else 1
  cos _ := 1
  sin _ := 0

def pairModel : IndexerModel ℚ pairConfig where
  functions := pairFunctions
  rotary := { compressed := fun _ => 1 }
  layers _ := {
    compressor := { kvProj := fun _ _ => 1, gateProj := fun _ _ => 0, norm := fun _ => 1, rmsNormEps := 3 }
    indexer := { qProj := fun _ _ => 1, weightProj := fun _ _ => 1, kProj := fun _ _ => 2, kNorm := fun _ => 1
                 rmsNormEps := 3 } }

def packedBatch : Batch 1 where
  inputIds := replicate 9 fun _ => 0
  tokenMask := replicate 8 (fun _ => true) ++ [fun _ => false]
  sequenceIds := replicate 3 (fun _ => 0) ++ replicate 5 (fun _ => 4) ++ [fun _ => -1]
  maskLength := rfl
  sequenceLength := rfl

def aloneBatch : Batch 1 where
  inputIds := replicate 5 fun _ => 0
  tokenMask := replicate 5 fun _ => true
  sequenceIds := replicate 5 fun _ => 0
  maskLength := rfl
  sequenceLength := rfl

theorem packed_of {rows : ℕ} {batch : Batch rows} (bound : ℕ) (short : batch.inputIds.length ≤ bound)
    (padded : ∀ row, ∀ later < bound, ∀ token ≤ later, batch.live later row = true →
      batch.live token row = true ∧ batch.sequence token row ≤ batch.sequence later row ∧ 0 ≤ batch.sequence token row)
    (limits : ∀ row, ∀ token < bound, batch.sequence token row < 2 ^ 63) : Packed batch where
  padded row token later order live := (padded row later ((live_inside live).trans_le short) token order live).1
  increasing row token later order live := (padded row later ((live_inside live).trans_le short) token order live).2.1
  nonneg row token live := (padded row token ((live_inside live).trans_le short) token (Nat.le_refl token) live).2.2
  bounded row token := by
    by_cases inside : token < bound
    · exact limits row token inside
    · unfold Batch.sequence Model.ContextParallel.valueAt
      rw [getElem?_eq_none (by rw [batch.sequenceLength]; omega)]
      show (-1 : ℤ) < 2 ^ 63
      decide

def packedPass : Pass ℚ pairConfig where
  rows := 1
  batch := packedBatch
  queries := range 9
  x _ _ token _ := if token < 5 then -1 else 1
  qResidual _ _ _ _ := 1
  packed := packed_of 9 (Nat.le_refl 9) (by decide) (by decide)
  filled := Nat.one_pos
  asked := by decide

def alonePass : Pass ℚ pairConfig where
  rows := 1
  batch := aloneBatch
  queries := range 5
  x _ _ token _ := if token < 2 then -1 else 1
  qResidual _ _ _ _ := 1
  packed := packed_of 5 (Nat.le_refl 5) (by decide) (by decide)
  filled := Nat.one_pos
  asked := by decide

def packedQuery : packedPass.Query where
  row := (0 : Fin 1)
  index := 7
  token := 7
  listed := rfl
  live := rfl

def aloneQuery : alonePass.Query where
  row := (0 : Fin 1)
  index := 4
  token := 4
  listed := rfl
  live := rfl

theorem pair_agrees : SamePrefix 1 packedQuery aloneQuery where
  offset := by decide
  x _ _ offset _ := by
    have first : packedQuery.first = 3 := by decide
    have second : aloneQuery.first = 0 := by decide
    funext place
    exact if_congr (by omega) rfl rfl
  qResidual _ _ := rfl

/-- In the second layer the last token of the second sequence selects one of two groups, the same one as alone. -/
theorem pair_selection : (∃ shadow next, pairModel.before packedPass 1 = some shadow ∧ pairModel.after packedPass 1 = some next
      ∧ ∃ selected, Selects pairModel 0 1 packedQuery (previous packedPass 1 shadow) (packedQuery.selected next) selected)
    ∧ ∀ left right, pairModel.after packedPass 1 = some left → pairModel.after alonePass 1 = some right →
      packedQuery.relative 0 (packedQuery.selected left) = aloneQuery.relative 0 (aloneQuery.selected right) := by
  have known : pairConfig.keySource (1 + 1) = some 0 := rfl
  obtain ⟨each, same⟩ := indexer_selection pairModel (by decide) known rfl
  obtain ⟨shadow, next, found, left, selects, -⟩ := each packedPass packedQuery
  refine ⟨⟨shadow, next, found, left, selects (by decide)⟩, fun left right first second => ?_⟩
  refine (same (fun candidate reads => ?_) packedPass alonePass packedQuery aloneQuery pair_agrees left right first second).1
  obtain rfl := some.inj ((show candidateLayer pairConfig 0 1 = some 0 from rfl).symm.trans reads)
  rfl

end TinyDSV41.Attention
