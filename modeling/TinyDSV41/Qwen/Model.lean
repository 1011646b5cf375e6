/-
**The native Qwen3 MoE model of one sequence, in exact arithmetic.**

* `Torch` — the functions of a real number that the model uses, and how the largest of a row are found.
* `Attention.forward`, `Mlp.forward`, `SparseMoeBlock.forward` — what a layer does with the rows of a sequence.
* `sdpa_append` — keys that a mask hides are as good as not there.
* `Mlp.forward_rows`, `SparseMoeBlock.forward_rows` — a row's output depends on that row only.
* `forward_full` — the layers are those of a causal stack.
-/

import TinyDSV41.Lib.CausalStack
import TinyDSV41.Lib.Checks
import TinyDSV41.Dispatch.Basic
import Mathlib.Algebra.BigOperators.Fin

namespace TinyDSV41.Qwen

open List Lib Dispatch

/-- Functions of real numbers, and the values and indices of the largest entries of a row. -/
structure Torch (F : Type) where
  exp : F → F
  log : F → F
  rsqrt : F → F
  cos : F → F
  sin : F → F
  power : F → F → F
  topk : (k : ℕ) → {size : ℕ} → (Fin size → F) → List (F × Fin size)
  length_topk : ∀ k {size : ℕ} (row : Fin size → F), k ≤ size → (topk k row).length = k

/-- The sizes of `Qwen3MoeConfig`, checked by it: there are `num_key_value_groups` query heads to a key head. Rotary
embeddings have an even dimension. -/
structure Config where
  hiddenSize : ℕ
  numKeyValueHeads : ℕ
  numKeyValueGroups : ℕ
  halfDim : ℕ
  intermediateSize : ℕ
  moeIntermediateSize : ℕ
  numExperts : ℕ
  numExpertsPerTok : ℕ
  vocabSize : ℕ
  maxPositionEmbeddings : ℕ
  routed : 1 ≤ numExpertsPerTok ∧ numExpertsPerTok ≤ numExperts

namespace Config

variable (config : Config)

def headDim : ℕ := config.halfDim + config.halfDim

def numAttentionHeads : ℕ := config.numKeyValueHeads * config.numKeyValueGroups

end Config

variable {F : Type} [Field F] {config : Config}

abbrev Vec (F : Type) (size : ℕ) := Fin size → F

/-- `nn.Linear` without a bias. -/
def linear {rows size : ℕ} (weight : Fin rows → Vec F size) (input : Vec F size) : Vec F rows :=
  fun row => ∑ column, weight row column * input column

/-- `Qwen3MoeRMSNorm.forward` of a row. -/
def rmsNorm {size : ℕ} (torch : Torch F) (weight : Vec F size) (eps : F) (hidden : Vec F size) : Vec F size :=
  fun place => weight place * (hidden place * torch.rsqrt ((∑ column, hidden column * hidden column) / size + eps))

/-- `view(…, heads, head_dim)` of a row. -/
def viewHeads {heads size : ℕ} (row : Vec F (heads * size)) : Fin heads → Vec F size :=
  fun head place => row (finProdFinEquiv (head, place))

/-- `reshape(…, -1)` of the heads of a row. -/
def flatHeads {heads size : ℕ} (each : Fin heads → Vec F size) : Vec F (heads * size) :=
  fun place => each (finProdFinEquiv.symm place).1 (finProdFinEquiv.symm place).2

/-- `rotate_half` -/
def rotateHalf (x : Vec F config.headDim) : Vec F config.headDim :=
  fun place => Fin.addCases (fun low => -x (Fin.natAdd config.halfDim low)) (fun high => x (Fin.castAdd config.halfDim high))
    place

/-- `Qwen3MoeRotaryEmbedding.forward` at a position: the angle of each dimension. -/
def angle (torch : Torch F) (ropeTheta : F) (position : ℕ) (place : Fin config.headDim) : F :=
  let frequency (index : Fin config.halfDim) : F :=
    position * (1 / torch.power ropeTheta (((2 * (index : ℕ) : ℕ) : F) / (config.headDim : F)))
  Fin.addCases frequency frequency place

/-- `apply_rotary_pos_emb` of a query or a key at a position. -/
def rotary (torch : Torch F) (ropeTheta : F) (position : ℕ) (x : Vec F config.headDim) : Vec F config.headDim :=
  fun place => x place * torch.cos (angle torch ropeTheta position place)
    + rotateHalf x place * torch.sin (angle torch ropeTheta position place)

/-- `repeat_kv` -/
def repeatKv {Item : Type} (each : Fin config.numKeyValueHeads → Item) : Fin config.numAttentionHeads → Item :=
  fun head => each (finProdFinEquiv.symm head).1

def softmaxScores (torch : Torch F) (scores : List (Option F)) : List F :=
  let exponentials := scores.map fun score => (score.map torch.exp).getD 0
  exponentials.map fun value => value / exponentials.sum

/-- `F.scaled_dot_product_attention` of a query: keys that the mask hides have no weight. -/
def sdpa {size : ℕ} (torch : Torch F) (query : Vec F size) (keys values : List (Vec F size)) (mask : Option (List Bool)) :
    Vec F size :=
  let scores := keys.map fun key => (∑ place, query place * key place) * torch.rsqrt size
  let shown : List Bool := mask.getD (replicate keys.length true)
  let weights := softmaxScores torch (zipWith (fun score visible => if visible = true then some score else none)
    scores shown)
  fun place => (zipWith (fun weight value => weight * value place) weights values).sum

/-- The key and the value heads of a position. -/
structure KeyValue (F : Type) (config : Config) where
  key : Fin config.numKeyValueHeads → Vec F config.headDim
  value : Fin config.numKeyValueHeads → Vec F config.headDim

/-- The weights of `Qwen3MoeAttention`. -/
structure Attention (F : Type) (config : Config) where
  qProj : Fin (config.numAttentionHeads * config.headDim) → Vec F config.hiddenSize
  kProj : Fin (config.numKeyValueHeads * config.headDim) → Vec F config.hiddenSize
  vProj : Fin (config.numKeyValueHeads * config.headDim) → Vec F config.hiddenSize
  oProj : Fin config.hiddenSize → Vec F (config.numAttentionHeads * config.headDim)
  qNorm : Vec F config.headDim
  kNorm : Vec F config.headDim

/-- The constants that all layers share. -/
structure Constants (F : Type) where
  ropeTheta : F
  rmsNormEps : F

namespace Attention

variable (torch : Torch F) (constants : Constants F) (attention : Attention F config)

def query (position : ℕ) (hidden : Vec F config.hiddenSize) : Fin config.numAttentionHeads → Vec F config.headDim :=
  fun head => rotary torch constants.ropeTheta position
    (rmsNorm torch attention.qNorm constants.rmsNormEps (viewHeads (linear attention.qProj hidden) head))

def keyValue (position : ℕ) (hidden : Vec F config.hiddenSize) : KeyValue F config where
  key head := rotary torch constants.ropeTheta position
    (rmsNorm torch attention.kNorm constants.rmsNormEps (viewHeads (linear attention.kProj hidden) head))
  value head := viewHeads (linear attention.vProj hidden) head

def attended (query : Fin config.numAttentionHeads → Vec F config.headDim) (keyValues : List (KeyValue F config))
    (mask : Option (List Bool)) : Vec F config.hiddenSize :=
  linear attention.oProj (flatHeads fun head =>
    sdpa torch (query head) (keyValues.map fun keyValue => repeatKv keyValue.key head)
      (keyValues.map fun keyValue => repeatKv keyValue.value head) mask)

/-- A row of `torch.ones(length, length, dtype=torch.bool).tril()`. -/
def trilRow (length row : ℕ) : List Bool := (range length).map fun column => decide (column ≤ row)

/-- A row of the mask: `is_causal` without an attention mask, and with one the positions that it shows. -/
def maskRow (length row : ℕ) : Option (List Bool) → List Bool
  | none => trilRow length row
  | some valid => zipWith (· && ·) (trilRow length row) valid

def keyValues (start : ℕ) (hidden : List (Vec F config.hiddenSize)) : List (KeyValue F config) :=
  (hidden.zipIdx start).map fun entry => attention.keyValue torch constants entry.2 entry.1

/-- `Qwen3MoeAttention.forward` of one sequence, without context parallelism. -/
def forward (hidden : List (Vec F config.hiddenSize)) (attentionMask : Option (List Bool)) :
    List (Vec F config.hiddenSize) :=
  let keyValues := attention.keyValues torch constants 0 hidden
  hidden.zipIdx.map fun entry => attention.attended torch (attention.query torch constants entry.2 entry.1) keyValues
    (some (maskRow hidden.length entry.2 attentionMask))

end Attention

/-- `F.silu` -/
def silu (torch : Torch F) (value : F) : F := value / (1 + torch.exp (-value))

structure Gated (F : Type) (inner size : ℕ) where
  gateProj : Fin inner → Vec F size
  upProj : Fin inner → Vec F size
  downProj : Fin size → Vec F inner

/-- `down_proj(F.silu(gate_proj(hidden)) * up_proj(hidden))` of a row. -/
def Gated.row {inner size : ℕ} (torch : Torch F) (gated : Gated F inner size) (hidden : Vec F size) : Vec F size :=
  linear gated.downProj fun place =>
    silu torch (linear gated.gateProj hidden place) * linear gated.upProj hidden place

/-- The weights of `Qwen3MoeSparseMoeBlock`. -/
structure SparseMoeBlock (F : Type) (config : Config) where
  gate : Fin config.numExperts → Vec F config.hiddenSize
  experts : Fin config.numExperts → Gated F config.moeIntermediateSize config.hiddenSize
  normTopkProb : Bool

namespace SparseMoeBlock

variable (torch : Torch F) (block : SparseMoeBlock F config)

def route (hidden : Vec F config.hiddenSize) : List (F × Fin config.numExperts) :=
  let logits := linear block.gate hidden
  let total := ∑ expert, torch.exp (logits expert)
  let selected := torch.topk config.numExpertsPerTok fun expert => torch.exp (logits expert) / total
  let sum := (selected.map Prod.fst).sum
  if block.normTopkProb = true then selected.map fun entry => (entry.1 / sum, entry.2) else selected

variable (rows : List (Fin config.numExperts × Vec F config.hiddenSize × F))

/-- The rows of one expert are added to the output: `output.index_add_(0, token_id, current)`. -/
def addExpert (rows : List (Fin config.numExperts × Vec F config.hiddenSize × F))
    (output : List (Vec F config.hiddenSize)) (expert : ℤ) : List (Vec F config.hiddenSize) :=
  zipWith (fun (out : Vec F config.hiddenSize) row =>
    if ((row.1 : ℕ) : ℤ) = expert then out + fun place => (block.experts row.1).row torch row.2.1 place * row.2.2 else out)
    output rows

/-- `Qwen3MoeExperts.forward` of dispatched rows: expert by expert. -/
def expertsForward (rows : List (Fin config.numExperts × Vec F config.hiddenSize × F)) :
    List (Vec F config.hiddenSize) :=
  (unique (rows.map fun row => ((row.1 : ℕ) : ℤ))).foldl (block.addExpert torch rows) (rows.map fun _ => 0)

/-- `Qwen3MoeSparseMoeBlock.forward`: rows are repeated for each of their experts, and summed up again. -/
def forward (hidden : List (Vec F config.hiddenSize)) : List (Vec F config.hiddenSize) :=
  let tokens := hidden.flatMap fun row => replicate config.numExpertsPerTok row
  let expertIds := hidden.flatMap fun row => (block.route torch row).map Prod.snd
  let weights := hidden.flatMap fun row => (block.route torch row).map Prod.fst
  tokenSums hidden.length config.numExpertsPerTok (block.expertsForward torch (expertIds.zip (tokens.zip weights)))

end SparseMoeBlock

/-- `Qwen3MoeMLP` or `Qwen3MoeSparseMoeBlock`. -/
inductive Mlp (F : Type) (config : Config) where
  | dense (gated : Gated F config.intermediateSize config.hiddenSize)
  | sparse (block : SparseMoeBlock F config)

def Mlp.forward (torch : Torch F) (hidden : List (Vec F config.hiddenSize)) :
    Mlp F config → List (Vec F config.hiddenSize)
  | .dense gated => hidden.map (gated.row torch)
  | .sparse block => block.forward torch hidden

/-- The weights of `Qwen3MoeDecoderLayer`. -/
structure DecoderLayer (F : Type) (config : Config) where
  selfAttn : Attention F config
  mlp : Mlp F config
  inputLayernorm : Vec F config.hiddenSize
  postAttentionLayernorm : Vec F config.hiddenSize

namespace DecoderLayer

variable (torch : Torch F) (constants : Constants F) (layer : DecoderLayer F config)

def finish (hidden : List (Vec F config.hiddenSize)) : List (Vec F config.hiddenSize) :=
  zipWith (· + ·) hidden
    (layer.mlp.forward torch (hidden.map (rmsNorm torch layer.postAttentionLayernorm constants.rmsNormEps)))

/-- `Qwen3MoeDecoderLayer.forward` -/
def forward (hidden : List (Vec F config.hiddenSize)) (attentionMask : Option (List Bool)) :
    List (Vec F config.hiddenSize) :=
  let normalized := hidden.map (rmsNorm torch layer.inputLayernorm constants.rmsNormEps)
  let attended := layer.selfAttn.forward torch constants normalized attentionMask
  layer.finish torch constants (zipWith (· + ·) hidden attended)

end DecoderLayer

/-- The weights of `Qwen3MoeForCausalLM`. -/
structure Backend (F : Type) (config : Config) where
  constants : Constants F
  embedTokens : Fin config.vocabSize → Vec F config.hiddenSize
  layers : List (DecoderLayer F config)
  norm : Vec F config.hiddenSize
  lmHead : Fin config.vocabSize → Vec F config.hiddenSize

namespace Backend

variable (torch : Torch F) (backend : Backend F config)

/-- `model.embed_tokens` of a token. -/
def embedToken (token : ℤ) : Except String (Vec F config.hiddenSize) :=
  if inside : token.toNat < config.vocabSize then
    if 0 ≤ token then .ok (backend.embedTokens ⟨token.toNat, inside⟩) else .error "index out of range in self"
  else .error "index out of range in self"

/-- `model.embed_tokens` -/
def embed (tokens : List ℤ) : Except String (List (Vec F config.hiddenSize)) := tokens.mapM backend.embedToken

/-- `model.norm` of a row. -/
def normRow (hidden : Vec F config.hiddenSize) : Vec F config.hiddenSize :=
  rmsNorm torch backend.norm backend.constants.rmsNormEps hidden

/-- The hidden states of `QwenPolicy.forward` of one sequence. -/
def forward (inputIds : List ℤ) (attentionMask : Option (List Bool)) : Except String (List (Vec F config.hiddenSize)) := do
  require (0 < inputIds.length ∧ inputIds.length ≤ config.maxPositionEmbeddings)
    "input_ids must be [batch, sequence] within max_position_embeddings"
  require (∀ valid ∈ attentionMask, valid.length = inputIds.length) "attention_mask must match input_ids"
  let hidden ← backend.embed inputIds
  let hidden := backend.layers.foldl (fun hidden layer => layer.forward torch backend.constants hidden attentionMask) hidden
  .ok (hidden.map (backend.normRow torch))

end Backend

/-! ### Hidden keys -/

section Masks

variable {size : ℕ} {torch : Torch F} {query : Vec F size}

theorem softmaxScores_hidden (scores : List (Option F)) (count : ℕ) :
    softmaxScores torch (scores ++ replicate count none) = softmaxScores torch scores ++ replicate count 0 := by
  have nothing : (replicate count (none : Option F)).map (fun score => (score.map torch.exp).getD 0)
      = replicate count 0 := map_replicate
  unfold softmaxScores
  rw [map_append, nothing]
  simp only
  rw [sum_append, sum_replicate, nsmul_zero, add_zero, map_append, map_replicate, zero_div]

/-- **Keys that are hidden are as good as not there.** -/
theorem sdpa_append {keys values hiddenKeys hiddenValues : List (Vec F size)} (same : keys.length = values.length) :
    sdpa torch query (keys ++ hiddenKeys) (values ++ hiddenValues)
        (some (replicate keys.length true ++ replicate hiddenKeys.length false))
      = sdpa torch query keys values none := by
  unfold sdpa
  have seen : ∀ scores : List F, zipWith (fun score visible => if visible = true then some score else none) scores
      (replicate scores.length true) = scores.map some := by
    intro scores
    induction scores with
    | nil => rfl
    | cons score scores known =>
      rw [length_cons, replicate_succ, zipWith_cons_cons, known, if_pos rfl]
      rfl
  have unseen : ∀ scores : List F, zipWith (fun score visible => if visible = true then some score else none) scores
      (replicate scores.length false) = replicate scores.length none := by
    intro scores
    induction scores with
    | nil => rfl
    | cons score scores known =>
      rw [length_cons, replicate_succ, zipWith_cons_cons, known, if_neg Bool.false_ne_true]
      rfl
  have first := seen (keys.map fun key => (∑ place, query place * key place) * torch.rsqrt size)
  have second := unseen (hiddenKeys.map fun key => (∑ place, query place * key place) * torch.rsqrt size)
  rw [length_map] at first second
  funext place
  simp only [Option.getD_some, Option.getD_none, map_append]
  rw [zipWith_append (by rw [length_map, length_replicate]), first, second, softmaxScores_hidden]
  have weights : (softmaxScores torch ((keys.map fun key =>
      (∑ place, query place * key place) * torch.rsqrt size).map some)).length = values.length := by
    unfold softmaxScores
    rw [length_map, length_map, length_map, length_map, same]
  rw [zipWith_append weights, sum_append]
  have nothing : ∀ (count : ℕ) (values : List (Vec F size)),
      (zipWith (fun weight (value : Vec F size) => weight * value place) (replicate count 0) values).sum = 0 := by
    intro count values
    refine sum_eq_zero fun term mem => ?_
    rw [← map_uncurry_zip_eq_zipWith] at mem
    obtain ⟨pair, within, rfl⟩ := mem_map.mp mem
    show pair.1 * pair.2 place = 0
    rw [eq_of_mem_replicate (of_mem_zip within).1, zero_mul]
  rw [nothing, add_zero]

theorem trilRow_eq {length row : ℕ} (inside : row < length) : Attention.trilRow length row
    = replicate (row + 1) true ++ replicate (length - (row + 1)) false := by
  unfold Attention.trilRow
  refine ext_getElem? fun place => ?_
  rw [getElem?_map]
  by_cases early : place ≤ row
  · rw [getElem?_range (by omega), getElem?_append_left (by rw [length_replicate]; omega),
      getElem?_replicate_of_lt (by omega), Option.map_some, decide_eq_true early]
  · rw [getElem?_append_right (by rw [length_replicate]; omega), length_replicate]
    by_cases within : place < length
    · rw [getElem?_range within, getElem?_replicate_of_lt (by omega), Option.map_some, decide_eq_false early]
    · rw [getElem?_eq_none (by rw [length_range]; omega),
        getElem?_eq_none (by rw [length_replicate]; omega), Option.map_none]

theorem sdpa_tril {keys values : List (Vec F size)} {row : ℕ} (same : keys.length = values.length)
    (inside : row < keys.length) : sdpa torch query keys values (some (Attention.trilRow keys.length row))
      = sdpa torch query (keys.take (row + 1)) (values.take (row + 1)) none := by
  have shown : (keys.take (row + 1)).length = row + 1 := length_take_of_le inside
  have rest : (keys.drop (row + 1)).length = keys.length - (row + 1) := length_drop
  have split : sdpa torch query (keys.take (row + 1) ++ keys.drop (row + 1)) (values.take (row + 1) ++ values.drop (row + 1))
      (some (replicate (keys.take (row + 1)).length true ++ replicate (keys.drop (row + 1)).length false))
        = sdpa torch query (keys.take (row + 1)) (values.take (row + 1)) none :=
    sdpa_append (by rw [shown, length_take_of_le (by omega)])
  rw [take_append_drop, take_append_drop, shown, rest] at split
  rw [trilRow_eq inside]
  exact split

end Masks

/-! ### Rows by themselves -/

section Rows

variable {torch : Torch F} {block : SparseMoeBlock F config}

/-- What an expert makes of a dispatched row. -/
def SparseMoeBlock.processed (torch : Torch F) (block : SparseMoeBlock F config)
    (row : Fin config.numExperts × Vec F config.hiddenSize × F) : Vec F config.hiddenSize :=
  fun place => (block.experts row.1).row torch row.2.1 place * row.2.2

/-- The sum of what a row's experts make of it. -/
def SparseMoeBlock.row (torch : Torch F) (block : SparseMoeBlock F config) (hidden : Vec F config.hiddenSize) :
    Vec F config.hiddenSize :=
  ((block.route torch hidden).map fun entry => block.processed torch (entry.2, hidden, entry.1)).sum

def Mlp.row (torch : Torch F) (hidden : Vec F config.hiddenSize) : Mlp F config → Vec F config.hiddenSize
  | .dense gated => gated.row torch hidden
  | .sparse block => block.row torch hidden

section

variable (rows : List (Fin config.numExperts × Vec F config.hiddenSize × F))
include rows

theorem foldl_addExpert (ids : List ℤ) (distinct : ids.Nodup)
    (start : Fin config.numExperts × Vec F config.hiddenSize × F → Vec F config.hiddenSize) :
    ids.foldl (block.addExpert torch rows) (rows.map start)
      = rows.map fun row => if ((row.1 : ℕ) : ℤ) ∈ ids then start row + block.processed torch row else start row := by
  induction ids generalizing start with
  | nil => exact map_congr_left fun row _ => (if_neg not_mem_nil).symm
  | cons id ids known =>
    obtain ⟨fresh, others⟩ := nodup_cons.mp distinct
    have one : block.addExpert torch rows (rows.map start) id
        = rows.map fun row => if ((row.1 : ℕ) : ℤ) = id then start row + block.processed torch row else start row := by
      unfold SparseMoeBlock.addExpert
      rw [zipWith_map_left, zipWith_self]
      rfl
    rw [foldl_cons, one, known others]
    refine map_congr_left fun row _ => ?_
    by_cases mine : ((row.1 : ℕ) : ℤ) = id
    · rw [if_neg (by rw [mine]; exact fresh), if_pos mine, if_pos (by rw [mine]; exact mem_cons_self)]
    · by_cases later : ((row.1 : ℕ) : ℤ) ∈ ids
      · rw [if_pos later, if_neg mine, if_pos (mem_cons_of_mem _ later)]
      · rw [if_neg later, if_neg mine, if_neg (by rw [mem_cons]; exact not_or.mpr ⟨mine, later⟩)]

theorem expertsForward_eq : block.expertsForward torch rows = rows.map (block.processed torch) := by
  unfold SparseMoeBlock.expertsForward
  have increasing : (unique (rows.map fun row => ((row.1 : ℕ) : ℤ))).Pairwise (· < ·) := unique_increasing
  rw [foldl_addExpert rows _ (increasing.imp fun below => below.ne)]
  refine map_congr_left fun row mem => ?_
  rw [if_pos (mem_unique.mpr (mem_map_of_mem mem)), zero_add]

end

theorem tokenSums_flatMap {Item Row : Type} [AddMonoid Row] {items : List Item} {each : Item → List Row} {topk : ℕ}
    (sized : ∀ item ∈ items, (each item).length = topk) :
    tokenSums items.length topk (items.flatMap each) = items.map fun item => (each item).sum := by
  unfold tokenSums
  induction items with
  | nil => rfl
  | cons item items known =>
    obtain ⟨here, later⟩ := forall_mem_cons.mp sized
    rw [length_cons, range_succ_eq_map, map_cons, map_map, flatMap_cons, map_cons]
    congr 1
    · unfold slice
      rw [Nat.zero_mul, drop_zero, ← here, take_left]
    · rw [← known later]
      refine map_congr_left fun token _ => ?_
      show (slice topk (each item ++ items.flatMap each) (token + 1)).sum = (slice topk (items.flatMap each) token).sum
      unfold slice
      rw [Nat.succ_mul, Nat.add_comm, ← here, drop_append, drop_eq_nil_of_le (Nat.le_add_right _ _),
        nil_append, Nat.add_sub_cancel_left]

theorem length_route (hidden : Vec F config.hiddenSize) :
    (block.route torch hidden).length = config.numExpertsPerTok := by
  unfold SparseMoeBlock.route
  split_ifs
  · rw [length_map, torch.length_topk _ _ config.routed.2]
  · exact torch.length_topk _ _ config.routed.2

/-- **A row's sum of experts depends on that row only.** -/
theorem SparseMoeBlock.forward_rows (hidden : List (Vec F config.hiddenSize)) :
    block.forward torch hidden = hidden.map (block.row torch) := by
  have pairs : ∀ row : Vec F config.hiddenSize, ((block.route torch row).map Prod.snd).zip
      ((replicate config.numExpertsPerTok row).zip ((block.route torch row).map Prod.fst))
        = (block.route torch row).map fun entry => (entry.2, row, entry.1) := by
    intro row
    have constant : replicate config.numExpertsPerTok row = (block.route torch row).map fun _ => row := by
      rw [map_const', length_route]
    rw [constant, zip_map', zip_map']
  unfold SparseMoeBlock.forward
  simp only
  rw [zip_flatMap fun row _ => by rw [length_replicate, length_map, length_route],
    zip_flatMap fun row _ => by rw [length_zip, length_replicate, length_map, length_map, length_route,
      min_self],
    funext pairs, expertsForward_eq, map_flatMap, tokenSums_flatMap fun row _ => by
      rw [length_map, length_map, length_route]]
  refine map_congr_left fun row _ => ?_
  rw [map_map]
  rfl

theorem Mlp.forward_rows (mlp : Mlp F config) (hidden : List (Vec F config.hiddenSize)) :
    mlp.forward torch hidden = hidden.map fun row => mlp.row torch row := by
  cases mlp with
  | dense gated => rfl
  | sparse block => exact block.forward_rows hidden

end Rows

/-! ### A causal stack -/

section Causal

variable {torch : Torch F} {constants : Constants F} {layer : DecoderLayer F config}

/-- The second half of a layer, for one row. -/
def DecoderLayer.finishRow (torch : Torch F) (constants : Constants F) (layer : DecoderLayer F config)
    (hidden : Vec F config.hiddenSize) : Vec F config.hiddenSize :=
  hidden + layer.mlp.row torch (rmsNorm torch layer.postAttentionLayernorm constants.rmsNormEps hidden)

/-- A layer at a position: it writes a key and a value, and reads all that there are. -/
def DecoderLayer.causal (torch : Torch F) (constants : Constants F) (layer : DecoderLayer F config) :
    Layer (Vec F config.hiddenSize) (KeyValue F config) where
  write position hidden := layer.selfAttn.keyValue torch constants position
    (rmsNorm torch layer.inputLayernorm constants.rmsNormEps hidden)
  read position hidden keyValues := layer.finishRow torch constants (hidden + layer.selfAttn.attended torch
    (layer.selfAttn.query torch constants position (rmsNorm torch layer.inputLayernorm constants.rmsNormEps hidden))
    keyValues none)

variable (hidden : List (Vec F config.hiddenSize))

theorem DecoderLayer.finish_rows :
    layer.finish torch constants hidden = hidden.map (layer.finishRow torch constants) := by
  unfold DecoderLayer.finish
  rw [Mlp.forward_rows, map_map, zipWith_map_right, zipWith_self]
  rfl

theorem attended_tril {attention : Attention F config} {query : Fin config.numAttentionHeads → Vec F config.headDim}
    {keyValues : List (KeyValue F config)} {row : ℕ} (inside : row < keyValues.length) :
    attention.attended torch query keyValues (some (Attention.trilRow keyValues.length row))
      = attention.attended torch query (keyValues.take (row + 1)) none := by
  unfold Attention.attended
  congr 2
  funext head
  have same : (keyValues.map fun keyValue => repeatKv keyValue.key head).length
      = (keyValues.map fun keyValue => repeatKv keyValue.value head).length := by
    rw [length_map, length_map]
  have within : row < (keyValues.map fun keyValue => repeatKv keyValue.key head).length := by
    rw [length_map]
    exact inside
  have shown : sdpa torch (query head) (keyValues.map fun keyValue => repeatKv keyValue.key head)
      (keyValues.map fun keyValue => repeatKv keyValue.value head)
      (some (Attention.trilRow (keyValues.map fun keyValue => repeatKv keyValue.key head).length row)) = _ :=
    sdpa_tril same within
  rw [length_map, ← map_take, ← map_take] at shown
  exact shown

def AllShown (length : ℕ) (mask : Option (List Bool)) : Prop := ∀ valid, mask = some valid → valid = replicate length true

theorem and_all_shown (row : List Bool) : zipWith (· && ·) row (replicate row.length true) = row := by
  induction row with
  | nil => rfl
  | cons shown row known => rw [length_cons, replicate_succ, zipWith_cons_cons, known, Bool.and_true]

variable {mask : Option (List Bool)}

theorem maskRow_shown {length row : ℕ} (shown : AllShown length mask) :
    Attention.maskRow length row mask = Attention.trilRow length row := by
  cases mask with
  | none => rfl
  | some valid =>
    have same := and_all_shown (Attention.trilRow length row)
    have long : (Attention.trilRow length row).length = length := by
      unfold Attention.trilRow
      rw [length_map, length_range]
    rw [long] at same
    show zipWith (· && ·) _ valid = _
    rw [shown valid rfl, same]

/-- **Without padding, attention is causal.** -/
theorem attention_causal (attention : Attention F config) (hidden : List (Vec F config.hiddenSize))
    (shown : AllShown hidden.length mask) :
    attention.forward torch constants hidden mask = hidden.zipIdx.map fun entry =>
      attention.attended torch (attention.query torch constants entry.2 entry.1)
        ((attention.keyValues torch constants 0 hidden).take (entry.2 + 1)) none := by
  have length : (attention.keyValues torch constants 0 hidden).length = hidden.length := by
    unfold Attention.keyValues
    rw [length_map, length_zipIdx]
  refine map_congr_left fun entry mem => ?_
  have inside : entry.2 < (attention.keyValues torch constants 0 hidden).length := by
    rw [length]
    exact snd_lt_of_mem_zipIdx mem
  rw [maskRow_shown shown, ← length]
  exact attended_tril inside

/-- **Without padding, a layer is causal.** -/
theorem forward_full (shown : AllShown hidden.length mask) :
    layer.forward torch constants hidden mask = (layer.causal torch constants).full hidden := by
  have keyValues : layer.selfAttn.keyValues torch constants 0
      (hidden.map (rmsNorm torch layer.inputLayernorm constants.rmsNormEps))
        = (layer.causal torch constants).written 0 hidden := by
    unfold Attention.keyValues
    rw [zipIdx_map, map_map]
    rfl
  unfold DecoderLayer.forward
  simp only
  rw [attention_causal _ _ (by rw [length_map]; exact shown), keyValues, zipIdx_map, map_map,
    DecoderLayer.finish_rows]
  unfold Layer.full
  refine ext_getElem? fun place => ?_
  rw [getElem?_map, getElem?_map, getElem?_zipWith, getElem?_map, getElem?_zipIdx]
  cases hidden[place]? with
  | none | some => rfl

def Backend.causal (torch : Torch F) (backend : Backend F config) :
    List (Layer (Vec F config.hiddenSize) (KeyValue F config)) :=
  backend.layers.map (DecoderLayer.causal torch backend.constants)

theorem foldl_forward (layers : List (DecoderLayer F config)) (hidden : List (Vec F config.hiddenSize))
    (shown : AllShown hidden.length mask) :
    layers.foldl (fun hidden layer => layer.forward torch constants hidden mask) hidden
      = stack (layers.map (DecoderLayer.causal torch constants)) hidden := by
  induction layers generalizing hidden with
  | nil => rfl
  | cons layer layers known =>
    rw [foldl_cons, forward_full hidden shown]
    exact known _ (by rw [Layer.length_full]; exact shown)

/-- **Without padding, the hidden states are those of a causal stack.** -/
theorem Backend.forward_eq (backend : Backend F config) {inputIds : List ℤ}
    (shown : AllShown inputIds.length mask) {states : List (Vec F config.hiddenSize)} :
    backend.forward torch inputIds mask = .ok states ↔
      (0 < inputIds.length ∧ inputIds.length ≤ config.maxPositionEmbeddings) ∧ ∃ hidden, backend.embed inputIds = .ok hidden
        ∧ states = (stack (backend.causal torch) hidden).map (backend.normRow torch) := by
  have fits : ∀ valid ∈ mask, valid.length = inputIds.length := by
    intro valid given
    rw [shown valid given, length_replicate]
  unfold Backend.forward
  simp only [bind_eq_ok, require_eq_ok]
  constructor
  · rintro ⟨-, bounds, -, -, hidden, embedded, made⟩
    have long := (mapM_eq_ok.mp embedded).length_eq
    refine ⟨bounds, hidden, embedded, ?_⟩
    rw [foldl_forward _ _ (long ▸ shown)] at made
    exact (Except.ok.inj made).symm
  · rintro ⟨bounds, hidden, embedded, rfl⟩
    have long := (mapM_eq_ok.mp embedded).length_eq
    refine ⟨(), bounds, (), fits, hidden, embedded, ?_⟩
    rw [foldl_forward _ _ (long ▸ shown)]
    rfl

end Causal

end TinyDSV41.Qwen
