/-
**Rows of n-grams.**

For each position, each layer and each head, a row of the layer's table, from the last tokens of the position's
sequence.

* `Config.validate` — which configurations are accepted.
* `NgramHash.build` — the token map, the heads and the multipliers.
* `NgramHash.forward` — the rows of a batch.
* `forward_recent` — the rows of a live position are those of its recent tokens.
* `recent_part` — the recent tokens of a sequence are the same in every row that has it.
-/

import TinyDSV41.Engram.HashHeads
import TinyDSV41.Lib.Rows
import TinyDSV41.Lib.Slices
import Mathlib.Data.List.TakeWhile
import Mathlib.Data.Int.Bitwise

namespace TinyDSV41.Engram.Hashing

open List Lib Bool Option

/-- The fields of `DeepSeekV41Config` that the hash and the choice of layers read. -/
structure Config where
  vocabSize : ℤ
  numHiddenLayers : ℤ
  compressRatios : List ℤ
  kvSourceLayerIds : List ℤ
  indexSourceLayerIds : List ℤ
  candidateSourceLayerId : ℤ
  engramLayerIds : List ℤ
  engramVocabSize : ℤ
  engramNumEmbeddings : List ℤ
  engramMaxNgramSize : ℤ
  engramNHeads : ℤ
  engramCompressedVocabSize : ℤ
  engramPadId : ℤ

namespace Config

variable (config : Config)

def positives : List (String × ℤ) :=
  [("vocab_size", config.vocabSize), ("num_hidden_layers", config.numHiddenLayers),
    ("engram_vocab_size", config.engramVocabSize), ("engram_n_heads", config.engramNHeads),
    ("engram_compressed_vocab_size", config.engramCompressedVocabSize)]

def ratioAt (layerId : ℤ) : ℤ := (rowAt config.compressRatios layerId).getD 0

/-- `DeepSeekV41Config._validate`, of these fields. -/
def validate : Except String Unit := do
  let _ ← config.positives.mapM fun field =>
    let name := field.1
    require (0 < field.2) s!"{name} must be a positive integer"
  require ((config.compressRatios.length : ℤ) = config.numHiddenLayers ∧ ∀ ratio ∈ config.compressRatios, 0 ≤ ratio)
    "compress_ratios must contain one nonnegative integer per decoder layer"
  require (config.engramNumEmbeddings.length = config.engramLayerIds.length)
    "engram_num_embeddings must match engram_layer_ids"
  let _ ← config.kvSourceLayerIds.mapM fun layerId =>
    require (0 ≤ layerId ∧ layerId < config.numHiddenLayers ∧ 0 < config.ratioAt layerId)
      s!"invalid KV source layer: {layerId}"
  let _ ← config.indexSourceLayerIds.mapM fun layerId => do
    require (0 ≤ layerId ∧ layerId < config.numHiddenLayers ∧ 0 < config.ratioAt layerId)
      s!"invalid index source layer: {layerId}"
    require (∃ source ∈ config.kvSourceLayerIds, source ≤ layerId) s!"index source {layerId} has no preceding KV source"
  let _ ← config.compressRatios.zipIdx.mapM fun entry =>
    let layerId := entry.2
    require (0 < entry.1 → ∃ source ∈ config.kvSourceLayerIds, source ≤ layerId)
      s!"compressed layer {layerId} has no preceding KV source"
  require (0 ≤ config.candidateSourceLayerId → config.candidateSourceLayerId ∈ config.indexSourceLayerIds)
    "candidate_source_layer_id must be an index source"

def Accepted : Prop := config.validate = .ok ()

def entries : List (ℤ × ℤ) := config.engramLayerIds.zip config.engramNumEmbeddings

def firstPrime : ℕ := (config.engramVocabSize - 1).toNat

def headCount : ℕ := ((config.engramMaxNgramSize - 1) * config.engramNHeads).toNat

end Config

structure TokenMap where
  entries : List ℤ
  int64 : ∀ entry ∈ entries, entry < 2 ^ 63

/-- `numpy.random.default_rng(seed).integers(0, bound, size)`: as many numbers, all below the bound. -/
structure Generator where
  integers : ℤ → ℕ → ℕ → List ℕ
  length : ∀ seed bound size, (integers seed bound size).length = size
  below : ∀ seed bound size, 0 < bound → ∀ value ∈ integers seed bound size, value < bound

/-- `max(1, (np.iinfo(np.int64).max // compressed_vocab_size) // 2)` -/
def multiplierBound (compressedVocabSize : ℤ) : ℕ := (max 1 ((2 ^ 63 - 1) / compressedVocabSize / 2)).toNat

/-- `_build_hash_multipliers` -/
def buildHashMultipliers (generator : Generator) (layerIds : List ℤ) (maxNgram : ℕ) (compressedVocabSize : ℤ) :
    Except String (List (List ℤ)) := do
  require (layerIds ≠ []) "stack expects a non-empty TensorList"
  layerIds.mapM fun layerId => do
    require (0 ≤ layerId) "expected non-negative integer"
    .ok ((generator.integers (10007 * layerId) (multiplierBound compressedVocabSize) maxNgram).map
      fun (value : ℕ) => (value : ℤ) * 2 + 1)

/-- The entry of a tensor under an index, which counts from the end if it is negative. -/
def lookup (tensor : List ℤ) (index : ℤ) : Option ℤ :=
  rowAt tensor (if index < 0 then index + tensor.length else index)

/-- `int(token_map[config.engram_pad_id])` -/
def padOf (tokens : List ℤ) (padId : ℤ) : Except String ℤ :=
  match lookup tokens padId with
  | some compressed => .ok compressed
  | none => .error "index is out of bounds"

structure NgramHash where
  maxNgram : ℕ
  nHeads : ℕ
  padId : ℤ
  tokenMap : List ℤ
  layers : List (List Head)
  multipliers : List (List ℤ)

variable (config : Config)

/-- `torch.arange(vocab_size).remainder(compressed_vocab_size)` -/
def defaultMap (config : Config) : Except String (List ℤ) := do
  require (config.vocabSize < 2 ^ 63 ∧ config.engramCompressedVocabSize < 2 ^ 63)
    "value cannot be converted to type int64_t without overflow"
  .ok ((range config.vocabSize.toNat).map fun (id : ℕ) => (id : ℤ) % config.engramCompressedVocabSize)

def tokensOf (config : Config) : Option TokenMap → Except String (List ℤ)
  | some tokenMap => .ok tokenMap.entries
  | none => defaultMap config

/-- `NgramHash.__init__` -/
def NgramHash.build (config : Config) (layerIds : List ℤ) (tokenMap : Option TokenMap) (generator : Generator) :
    Except String NgramHash := do
  let tokens ← tokensOf config tokenMap
  require ((tokens.length : ℤ) = config.vocabSize) "Engram token map must contain one entry per vocabulary id"
  require (∀ token ∈ tokens, 0 ≤ token ∧ token < config.engramCompressedVocabSize)
    "Engram token map contains an out-of-range compressed id"
  let padId ← padOf tokens config.engramPadId
  require (∀ layerId ∈ layerIds, layerId ∈ config.engramLayerIds) "Engram hash layers must be configured Engram layers"
  let layers ← hashLayers config.headCount config.firstPrime layerIds config.entries []
  require (∀ heads ∈ layers, ∀ head ∈ heads, head.prime < 2 ^ 63 ∧ head.offset < 2 ^ 63) "Overflow when unpacking long"
  require (layers.length = layerIds.length ∧ 1 ≤ config.engramMaxNgramSize) "shape is invalid for input of this size"
  let multipliers ← buildHashMultipliers generator layerIds config.engramMaxNgramSize.toNat
    config.engramCompressedVocabSize
  .ok {
    maxNgram := config.engramMaxNgramSize.toNat
    nHeads := config.engramNHeads.toNat
    padId := padId
    tokenMap := tokens
    layers := layers
    multipliers := multipliers }

/-- A position of a row: its token, whether there is one, and its sequence. -/
structure Token where
  id : ℤ
  live : Bool
  sequence : ℤ
  deriving DecidableEq

def int64 (value : ℤ) : ℤ := (value + 2 ^ 63) % 2 ^ 64 - 2 ^ 63

def scanWindow (source : ℕ → ℤ) (other : ℕ → Bool) (padId : ℤ) : Bool → List ℕ → List ℤ
  | _, [] => []
  | blocked, distance :: distances =>
    let blocked := blocked || source distance == -1 || other distance
    (if blocked = true then padId else source distance) :: scanWindow source other padId blocked distances

/-- `F.pad(values, (context, 0), value=dead)[:, context - distance : …]` at a position. -/
def shifted (values : List ℤ) (context distance index : ℕ) : ℤ :=
  (replicate context (-1) ++ values).getD (context - distance + index) (-1)

def rollings : List ℤ → List ℤ
  | [] => []
  | first :: rest => (rest.scanl Int.xor first).tail

def layerIndices (nHeads : ℕ) (heads : List Head) (multipliers window : List ℤ) : List ℤ :=
  (rollings (zipWith (fun token multiplier => int64 (token * multiplier)) window multipliers)).zipIdx.flatMap
    fun entry => (slice nHeads heads entry.2).map fun head => int64 (entry.1 % head.prime + head.offset)

namespace NgramHash

variable (hash : NgramHash)

/-- `self.token_map[input_ids].masked_fill(~token_mask, dead)` -/
def tokenIds (row : List Token) : Option (List ℤ) :=
  row.mapM fun token => (lookup hash.tokenMap token.id).map fun compressed => if token.live = true then compressed else -1

/-- `sequence_ids.masked_fill(~token_mask, dead)` -/
def sequenceIds (row : List Token) : List ℤ := row.map fun token => if token.live = true then token.sequence else -1

/-- `windows` at a position. -/
def windowAt (tokens sequences : List ℤ) (index : ℕ) : List ℤ :=
  scanWindow (fun distance => shifted tokens (hash.maxNgram - 1) distance index)
    (fun distance => shifted sequences (hash.maxNgram - 1) distance index != sequences.getD index (-1))
    hash.padId false (range hash.maxNgram)

def windowIndices (window : List ℤ) : List (List ℤ) :=
  zipWith (fun heads multipliers => layerIndices hash.nHeads heads multipliers window) hash.layers hash.multipliers

/-- `NgramHash.forward` of a row. Without hashes there is nothing to concatenate. -/
def forwardRow (row : List Token) : Option (List (List (List ℤ))) := do
  let tokens ← hash.tokenIds row
  if hash.maxNgram < 2 then none
  else
    some ((range row.length).map fun index =>
      hash.windowIndices (hash.windowAt tokens (sequenceIds row) index))

/-- `NgramHash.forward` -/
def forward (batch : List (List Token)) : Option (List (List (List (List ℤ)))) := batch.mapM hash.forwardRow

end NgramHash

/-! ### Recent tokens -/

theorem scanWindow_eq {source : ℕ → ℤ} {other : ℕ → Bool} {padId : ℤ} (distances : List ℕ) :
    scanWindow source other padId false distances
      = (distances.takeWhile fun distance => !(source distance == -1 || other distance)).map source
        ++ replicate (distances.length
          - (distances.takeWhile fun distance => !(source distance == -1 || other distance)).length) padId := by
  have closed : ∀ distances : List ℕ, scanWindow source other padId true distances
      = replicate distances.length padId := by
    intro distances
    induction distances with
    | nil => rfl
    | cons distance distances known =>
      show padId :: scanWindow source other padId true distances = _
      rw [known]
      rfl
  induction distances with
  | nil => rfl
  | cons distance distances known =>
    unfold scanWindow
    by_cases blocked : (source distance == -1 || other distance) = true
    · simp only [Bool.false_or, blocked, if_true, Bool.not_true, takeWhile_cons]
      rw [closed, if_neg Bool.false_ne_true, map_nil, nil_append, length_nil, Nat.sub_zero,
        length_cons, replicate_succ]
    · simp only [Bool.false_or, blocked, Bool.not_false, takeWhile_cons, if_true]
      rw [known, if_neg Bool.false_ne_true, map_cons, length_cons, length_cons, Nat.succ_sub_succ,
        cons_append]

variable {distance : ℕ}

theorem shifted_eq {values : List ℤ} {context index : ℕ} (near : distance ≤ context) :
    shifted values context distance index = if distance ≤ index then values.getD (index - distance) (-1) else -1 := by
  unfold shifted
  by_cases early : distance ≤ index
  · rw [if_pos early, getD_append_right _ _ _ _ (by rw [length_replicate]; omega), length_replicate]
    congr 1
    omega
  · have before : context - distance + index < context := by omega
    rw [if_neg early, getD_append _ _ _ _ (by rw [length_replicate]; exact before),
      getD_replicate _ before]

def tokenAt (row : List Token) (index : ℕ) : Token := row.getD index ⟨0, false, -1⟩

/-- A live token of the same sequence is at a distance before a position. -/
def visible (row : List Token) (index distance : ℕ) : Bool :=
  decide (distance ≤ index) && (tokenAt row (index - distance)).live
    && (tokenAt row (index - distance)).sequence == (tokenAt row index).sequence

/-- The last consecutive live tokens of the sequence of a position, the nearest first. -/
def recent (count : ℕ) (row : List Token) (index : ℕ) : List ℤ :=
  ((range count).takeWhile (visible row index)).map fun distance => (tokenAt row (index - distance)).id

/-- The rows of recent tokens, with padding beyond them. -/
def NgramHash.indicesOf (hash : NgramHash) (ids : List ℤ) : Option (List (List ℤ)) :=
  (ids.mapM (lookup hash.tokenMap)).map fun tokens =>
    hash.windowIndices (tokens ++ replicate (hash.maxNgram - tokens.length) hash.padId)

theorem takeWhile_congr {Item : Type} {items : List Item} {one two : Item → Bool}
    (same : ∀ item ∈ items, one item = two item) : items.takeWhile one = items.takeWhile two := by
  induction items with
  | nil => rfl
  | cons item items known =>
    obtain ⟨here, later⟩ := forall_mem_cons.mp same
    rw [takeWhile_cons, takeWhile_cons, here, known later]

section Rows

variable {hash : NgramHash} {row : List Token} {tokens : List ℤ} {index : ℕ}

theorem tokenAt_getElem? (inside : index < row.length) : row[index]? = some (tokenAt row index) := by
  unfold tokenAt
  rw [getD_eq_getElem?_getD, getElem?_eq_getElem inside]
  rfl

theorem tokenIds_length (found : hash.tokenIds row = some tokens) : tokens.length = row.length :=
  (mapM_eq_some.mp found).length_eq.symm

theorem tokenIds_at (found : hash.tokenIds row = some tokens) (inside : index < row.length) :
    ∃ compressed, lookup hash.tokenMap (tokenAt row index).id = some compressed
      ∧ tokens.getD index (-1) = if (tokenAt row index).live = true then compressed else -1 := by
  have both := mapM_eq_some.mp found
  have inside' : index < tokens.length := by rw [tokenIds_length found]; exact inside
  have here := (forall₂_iff_get.mp both).2 index inside inside'
  obtain ⟨compressed, read, same⟩ := map_eq_some_iff.mp here
  have at_ : tokenAt row index = row.get ⟨index, inside⟩ := by
    have := tokenAt_getElem? inside
    rw [getElem?_eq_getElem inside] at this
    exact (some.inj this).symm
  rw [at_, getD_eq_getElem?_getD, getElem?_eq_getElem inside']
  exact ⟨compressed, read, same.symm⟩

theorem sequenceIds_at (row : List Token) (index : ℕ) : (NgramHash.sequenceIds row).getD index (-1)
    = if (tokenAt row index).live = true then (tokenAt row index).sequence else -1 := by
  unfold NgramHash.sequenceIds tokenAt
  rw [getD_eq_getElem?_getD, getElem?_map, getD_eq_getElem?_getD]
  cases row[index]? with
  | none | some => rfl

def NgramHash.Compressed (hash : NgramHash) : Prop := ∀ entry ∈ hash.tokenMap, 0 ≤ entry

theorem lookup_mem {tensor : List ℤ} {id value : ℤ} (found : lookup tensor id = some value) : value ∈ tensor :=
  rowAt_mem found

theorem open_visible (compressed : hash.Compressed) (found : hash.tokenIds row = some tokens)
    (inside : index < row.length) (live : (tokenAt row index).live = true)
    (near : distance < hash.maxNgram) :
    (!(shifted tokens (hash.maxNgram - 1) distance index == -1
        || shifted (NgramHash.sequenceIds row) (hash.maxNgram - 1) distance index
          != (NgramHash.sequenceIds row).getD index (-1)))
      = visible row index distance := by
  have within : distance ≤ hash.maxNgram - 1 := by omega
  rw [shifted_eq within, shifted_eq within, sequenceIds_at, sequenceIds_at, if_pos live]
  unfold visible
  by_cases early : distance ≤ index
  · have there : index - distance < row.length := by omega
    obtain ⟨token, read, same⟩ := tokenIds_at found there
    rw [if_pos early, if_pos early, same, decide_eq_true early, Bool.true_and]
    by_cases alive : (tokenAt row (index - distance)).live = true
    · have positive := compressed token (lookup_mem read)
      have apart : (token == -1) = false := beq_false_of_ne (by omega)
      rw [if_pos alive, if_pos alive, apart, alive, Bool.false_or, Bool.true_and, bne, Bool.not_not]
    · rw [not_eq_true] at alive
      rw [if_neg (by rw [alive]; exact Bool.false_ne_true), alive]
      rfl
  · rw [if_neg early, decide_eq_false early]
    rfl

/-- **The window of a live position: its recent tokens, and padding beyond them.** -/
theorem windowAt_eq (compressed : hash.Compressed) (found : hash.tokenIds row = some tokens)
    (inside : index < row.length) (live : (tokenAt row index).live = true) :
    ∃ known, (recent hash.maxNgram row index).mapM (lookup hash.tokenMap) = some known
      ∧ hash.windowAt tokens (NgramHash.sequenceIds row) index
        = known ++ replicate (hash.maxNgram - known.length) hash.padId := by
  have opens : ((range hash.maxNgram).takeWhile fun distance =>
      !(shifted tokens (hash.maxNgram - 1) distance index == -1
        || shifted (NgramHash.sequenceIds row) (hash.maxNgram - 1) distance index
          != (NgramHash.sequenceIds row).getD index (-1)))
      = (range hash.maxNgram).takeWhile (visible row index) :=
    takeWhile_congr fun distance member => open_visible compressed found inside live (mem_range.mp member)
  refine ⟨((range hash.maxNgram).takeWhile (visible row index)).map fun distance =>
    shifted tokens (hash.maxNgram - 1) distance index, ?_, ?_⟩
  · unfold recent
    rw [mapM_eq_some, forall₂_map_left_iff, forall₂_map_right_iff]
    refine forall₂_same.mpr fun distance member => ?_
    have near := mem_range.mp ((takeWhile_sublist _).mem member)
    have seen : visible row index distance = true := mem_takeWhile_imp member
    unfold visible at seen
    simp only [and_eq_true, decide_eq_true_eq] at seen
    obtain ⟨token, read, same⟩ := tokenIds_at found (show index - distance < row.length by omega)
    rw [if_pos seen.1.2] at same
    rw [shifted_eq (by omega), if_pos seen.1.1, same]
    exact read
  · unfold NgramHash.windowAt
    rw [scanWindow_eq, opens, length_map, length_range]

/-- **The rows of a live position are those of its recent tokens.** -/
theorem forward_recent (compressed : hash.Compressed) {indices : List (List (List ℤ))}
    (found : hash.forwardRow row = some indices) (inside : index < row.length)
    (live : (tokenAt row index).live = true) :
    ∃ rows, indices[index]? = some rows ∧ hash.indicesOf (recent hash.maxNgram row index) = some rows := by
  obtain ⟨tokens, read, made⟩ := bind_eq_some_iff.mp found
  obtain ⟨known, seen, window⟩ := windowAt_eq compressed read inside live
  by_cases short : hash.maxNgram < 2
  · rw [if_pos short] at made
    cases made
  · rw [if_neg short] at made
    cases made
    refine ⟨_, ?_, congrArg (Option.map _) seen⟩
    rw [getElem?_map, getElem?_range inside]
    show some (hash.windowIndices (hash.windowAt tokens _ index)) = _
    rw [window]

/-! ### A sequence in a row -/

/-- The tokens of a sequence: the live ones of a part of a row. -/
def Occupies (part : List Token) (sequence : ℤ) : Prop := ∀ token ∈ part, token.live = true → token.sequence = sequence

/-- No live token belongs to the sequence. -/
def Absent (part : List Token) (sequence : ℤ) : Prop := ∀ token ∈ part, token.live = true → token.sequence ≠ sequence

/-- The same tokens at the same places, whatever their sequence is called. -/
def SameTokens (one two : List Token) : Prop :=
  List.Forall₂ (fun first second => first.live = second.live ∧ (first.live = true → first.id = second.id)) one two

variable {place : ℕ} {part : List Token}
variable {before after : List Token}

theorem tokenAt_part (inside : place < part.length) :
    tokenAt (before ++ part ++ after) (before.length + place) = tokenAt part place := by
  unfold tokenAt
  rw [append_assoc, getD_append_right _ _ _ _ (Nat.le_add_right _ _), Nat.add_sub_cancel_left,
    getD_append _ _ _ _ inside]

theorem tokenAt_mem (inside : place < part.length) : tokenAt part place ∈ part :=
  mem_of_getElem? (tokenAt_getElem? inside)

theorem SameTokens.tokenAt {one two : List Token} (same : SameTokens one two)
    (inside : place < one.length) :
    (tokenAt one place).live = (tokenAt two place).live
      ∧ ((tokenAt one place).live = true → (tokenAt one place).id = (tokenAt two place).id) := by
  obtain ⟨token, found, alike⟩ := forall₂_getElem? same (tokenAt_getElem? inside)
  rw [tokenAt_getElem? (lt_of_lt_of_eq inside same.length_eq)] at found
  rw [some.inj found]
  exact alike

/-- What a live token of a sequence sees is in the part of its sequence. -/
theorem visible_part {sequence : ℤ} (mine : Occupies part sequence) (others : Absent before sequence)
    (inside : place < part.length) (live : (tokenAt part place).live = true) :
    visible (before ++ part ++ after) (before.length + place) distance
      = (decide (distance ≤ place) && (tokenAt part (place - distance)).live) := by
  have own := mine _ (tokenAt_mem inside) live
  unfold visible
  rw [tokenAt_part inside, own]
  by_cases near : distance ≤ place
  · have there : place - distance < part.length := by omega
    rw [decide_eq_true near, decide_eq_true (by omega), Nat.add_sub_assoc near, tokenAt_part there]
    by_cases alive : (tokenAt part (place - distance)).live = true
    · rw [alive, mine _ (tokenAt_mem there) alive, beq_self_eq_true]
      rfl
    · rw [not_eq_true] at alive
      rw [alive]
      rfl
  · rw [decide_eq_false near, Bool.false_and]
    by_cases early : distance ≤ before.length + place
    · have there : before.length + place - distance < before.length := by omega
      have outside : tokenAt (before ++ part ++ after) (before.length + place - distance)
          = tokenAt before (before.length + place - distance) := by
        unfold tokenAt
        rw [append_assoc, getD_append _ _ _ _ there]
      rw [outside]
      by_cases alive : (tokenAt before (before.length + place - distance)).live = true
      · rw [beq_false_of_ne (others _ (tokenAt_mem there) alive), Bool.and_false]
      · rw [not_eq_true] at alive
        rw [alive, Bool.and_false, Bool.false_and]
    · rw [decide_eq_false early]
      rfl

/-- **The recent tokens of a sequence are the same in every row that has it.** -/
theorem recent_part {before' part' after' : List Token} {sequence sequence' : ℤ} (count : ℕ)
    (mine : Occupies part sequence) (others : Absent before sequence) (mine' : Occupies part' sequence')
    (others' : Absent before' sequence') (same : SameTokens part part') (inside : place < part.length)
    (live : (tokenAt part place).live = true) :
    recent count (before ++ part ++ after) (before.length + place)
      = recent count (before' ++ part' ++ after') (before'.length + place) := by
  have lengths : part.length = part'.length := same.length_eq
  have live' : (tokenAt part' place).live = true := by rw [← (same.tokenAt inside).1]; exact live
  have seen : ∀ distance, visible (before ++ part ++ after) (before.length + place) distance
      = visible (before' ++ part' ++ after') (before'.length + place) distance := by
    intro distance
    rw [visible_part mine others inside live, visible_part mine' others' (lengths ▸ inside) live']
    by_cases near : distance ≤ place
    · rw [(same.tokenAt (show place - distance < part.length by omega)).1]
    · rw [decide_eq_false near, Bool.false_and, Bool.false_and]
  unfold recent
  rw [funext seen]
  refine map_congr_left fun distance mem => ?_
  have visible_ : visible (before ++ part ++ after) (before.length + place) distance = true := by
    rw [seen]
    exact mem_takeWhile_imp mem
  rw [visible_part mine others inside live] at visible_
  simp only [and_eq_true, decide_eq_true_eq] at visible_
  have there : place - distance < part.length := by omega
  rw [Nat.add_sub_assoc visible_.1, Nat.add_sub_assoc visible_.1, tokenAt_part there, tokenAt_part (lengths ▸ there)]
  exact (same.tokenAt there).2 visible_.2

end Rows

end TinyDSV41.Engram.Hashing
