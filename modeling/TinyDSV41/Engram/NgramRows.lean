/-
**Rows of n-grams are rows of their heads.**

* `NgramHash.Built` — what is known of a hash that was built.
* `Exact` — no product, no exclusive or and no sum leaves the signed 64-bit range.
* `layerIndices_inside` — each row is in the interval of its own head.
* **`ngram_hash`** — the intervals of a layer are disjoint and inside its table, rows are in their intervals, and
  those of a live position are the same in every row that has its sequence.
-/

import TinyDSV41.Engram.NgramHash
import Mathlib.Tactic.NormNum.Prime
import Mathlib.Tactic.IntervalCases

namespace TinyDSV41.Engram.Hashing

open List Lib NgramHash Option

/-! ### What was built -/

variable {padId : ℤ}

section Built

variable {config : Config} {layerIds : List ℤ} {tokenMap : Option TokenMap} {generator : Generator} {hash : NgramHash}

theorem Config.Accepted.positive (accepted : config.Accepted) {field : String × ℤ} (mem : field ∈ config.positives) :
    0 < field.2 := by
  obtain ⟨units, ran, -⟩ := bind_eq_ok.mp accepted
  exact require_eq_ok.mp (mapM_unit_ok.mp ⟨units, ran⟩ field mem)

/-- The multipliers of a layer, one for each token of a window. -/
structure Multipliers (maxNgram : ℕ) (compressedVocabSize : ℤ) (multipliers : List ℤ) : Prop where
  length : multipliers.length = maxNgram
  drawn : ∀ multiplier ∈ multipliers, ∃ value : ℕ, value < multiplierBound compressedVocabSize
    ∧ multiplier = (value : ℤ) * 2 + 1

structure NgramHash.Built (config : Config) (layerIds : List ℤ) (hash : NgramHash) : Prop where
  maxNgram : hash.maxNgram = config.engramMaxNgramSize.toNat
  nHeads : hash.nHeads = config.engramNHeads.toNat
  vocabulary : (hash.tokenMap.length : ℤ) = config.vocabSize
  tokens : ∀ token ∈ hash.tokenMap, 0 ≤ token ∧ token < config.engramCompressedVocabSize ∧ token < 2 ^ 63
  padId : hash.padId ∈ hash.tokenMap
  layers : hashLayers config.headCount config.firstPrime layerIds config.entries [] = .ok hash.layers
  selected : hash.layers.length = layerIds.length
  multipliers : hash.multipliers.length = layerIds.length
  each : ∀ multipliers ∈ hash.multipliers,
    Multipliers config.engramMaxNgramSize.toNat config.engramCompressedVocabSize multipliers

theorem multiplierBound_pos (compressedVocabSize : ℤ) : 0 < multiplierBound compressedVocabSize := by
  unfold multiplierBound
  omega

theorem tokensOf_int64 {tokens : List ℤ} (chosen : tokensOf config tokenMap = .ok tokens)
    (compressed : ∀ token ∈ tokens, 0 ≤ token ∧ token < config.engramCompressedVocabSize) :
    ∀ token ∈ tokens, token < 2 ^ 63 := by
  cases tokenMap with
  | some tokenMap =>
    cases chosen
    exact tokenMap.int64
  | none =>
    obtain ⟨_, bounds, -⟩ := bind_eq_ok.mp chosen
    rw [require_eq_ok] at bounds
    exact fun token mem => (compressed token mem).2.trans bounds.2

theorem padOf_mem {tokens : List ℤ} {id : ℤ} (found : padOf tokens id = .ok padId) : padId ∈ tokens := by
  unfold padOf at found
  cases read : lookup tokens id with
  | none =>
    rw [read] at found
    cases found
  | some value =>
    rw [read] at found
    cases found
    exact lookup_mem read

theorem buildHashMultipliers_ok {maxNgram : ℕ} {compressedVocabSize : ℤ} {rows : List (List ℤ)}
    (made : buildHashMultipliers generator layerIds maxNgram compressedVocabSize = .ok rows) :
    rows.length = layerIds.length ∧ ∀ row ∈ rows, Multipliers maxNgram compressedVocabSize row := by
  obtain ⟨_, -, made⟩ := bind_eq_ok.mp made
  have both := mapM_eq_ok.mp made
  refine ⟨both.length_eq.symm, fun row mem => ?_⟩
  obtain ⟨layerId, -, drawn⟩ := forall₂_right both mem
  obtain ⟨_, -, drawn⟩ := bind_eq_ok.mp drawn
  cases drawn
  refine ⟨by rw [length_map, generator.length], fun multiplier mem => ?_⟩
  obtain ⟨value, within, rfl⟩ := mem_map.mp mem
  exact ⟨value, generator.below _ _ _ (multiplierBound_pos _) value within, rfl⟩

theorem build_iff : build config layerIds tokenMap generator = .ok hash ↔
    tokensOf config tokenMap = .ok hash.tokenMap ∧ (hash.tokenMap.length : ℤ) = config.vocabSize
      ∧ (∀ token ∈ hash.tokenMap, 0 ≤ token ∧ token < config.engramCompressedVocabSize)
      ∧ padOf hash.tokenMap config.engramPadId = .ok hash.padId
      ∧ (∀ layerId ∈ layerIds, layerId ∈ config.engramLayerIds)
      ∧ hashLayers config.headCount config.firstPrime layerIds config.entries [] = .ok hash.layers
      ∧ (∀ heads ∈ hash.layers, ∀ head ∈ heads, head.prime < 2 ^ 63 ∧ head.offset < 2 ^ 63)
      ∧ (hash.layers.length = layerIds.length ∧ 1 ≤ config.engramMaxNgramSize)
      ∧ buildHashMultipliers generator layerIds config.engramMaxNgramSize.toNat config.engramCompressedVocabSize
        = .ok hash.multipliers
      ∧ hash.maxNgram = config.engramMaxNgramSize.toNat ∧ hash.nHeads = config.engramNHeads.toNat := by
  unfold build
  simp only [bind_eq_ok, require_eq_ok]
  constructor
  · rintro ⟨tokens, chosen, _, vocabulary, _, compressed, padId, found, _, known, layers, hashed, _, fits, _, shape,
      multipliers, drawn, same⟩
    cases same
    exact ⟨chosen, vocabulary, compressed, found, known, hashed, fits, shape, drawn, rfl, rfl⟩
  · obtain ⟨maxNgram, nHeads, padId, tokens, layers, multipliers⟩ := hash
    rintro ⟨chosen, vocabulary, compressed, found, known, hashed, fits, shape, drawn, rfl, rfl⟩
    exact ⟨tokens, chosen, (), vocabulary, (), compressed, padId, found, (), known, layers, hashed, (), fits, (), shape,
      multipliers, drawn, rfl⟩

theorem build_ok (built : build config layerIds tokenMap generator = .ok hash) :
    hash.Built config layerIds := by
  obtain ⟨chosen, vocabulary, compressed, found, -, hashed, -, shape, drawn, grams, heads⟩ := build_iff.mp built
  obtain ⟨many, each⟩ := buildHashMultipliers_ok drawn
  have small := tokensOf_int64 chosen compressed
  exact {
    maxNgram := grams
    nHeads := heads
    vocabulary := vocabulary
    tokens := fun token mem => ⟨(compressed token mem).1, (compressed token mem).2, small token mem⟩
    padId := padOf_mem found
    layers := hashed
    selected := shape.1
    multipliers := many
    each := each }

end Built

/-! ### Ranges -/

def Fits (value : ℤ) : Prop := -2 ^ 63 ≤ value ∧ value < 2 ^ 63

def Small (value : ℤ) : Prop := 0 ≤ value ∧ value < 2 ^ 63

variable {value : ℤ}

theorem Small.fits (small : Small value) : Fits value := ⟨by have := small.1; omega, small.2⟩

theorem Fits.wrap (fits : Fits value) : int64 value = value := by
  obtain ⟨low, high⟩ := fits
  unfold int64
  omega

theorem product_small {token compressedVocabSize : ℤ} {value : ℕ} (positive : 0 < compressedVocabSize)
    (natural : 0 ≤ token) (compressed : token < compressedVocabSize) (small : token < 2 ^ 63)
    (drawn : value < multiplierBound compressedVocabSize) : Small (token * ((value : ℤ) * 2 + 1)) := by
  refine ⟨mul_nonneg natural (by omega), ?_⟩
  unfold multiplierBound at drawn
  by_cases wide : 1 ≤ (2 ^ 63 - 1) / compressedVocabSize / 2
  · have twice : (value : ℤ) * 2 + 1 ≤ (2 ^ 63 - 1) / compressedVocabSize := by omega
    calc token * ((value : ℤ) * 2 + 1)
        ≤ compressedVocabSize * ((2 ^ 63 - 1) / compressedVocabSize) :=
          mul_le_mul compressed.le twice (by omega) positive.le
      _ ≤ 2 ^ 63 - 1 := Int.mul_ediv_self_le positive.ne'
      _ < 2 ^ 63 := by omega
  · have first : value = 0 := by omega
    rw [first, Nat.cast_zero, zero_mul, zero_add, mul_one]
    exact small

theorem Small.xor {one two : ℤ} (first : Small one) (second : Small two) : Small (Int.xor one two) := by
  obtain ⟨left, rfl⟩ := Int.eq_ofNat_of_zero_le first.1
  obtain ⟨right, rfl⟩ := Int.eq_ofNat_of_zero_le second.1
  have below : left ^^^ right < 2 ^ 63 :=
    Nat.xor_lt_two_pow (by have := first.2; omega) (by have := second.2; omega)
  show 0 ≤ ((left ^^^ right : ℕ) : ℤ) ∧ ((left ^^^ right : ℕ) : ℤ) < 2 ^ 63
  exact ⟨Int.natCast_nonneg _, by exact_mod_cast below⟩

theorem scanl_small {rest : List ℤ} {first : ℤ} (here : Small first) (later : ∀ value ∈ rest, Small value) :
    ∀ value ∈ rest.scanl Int.xor first, Small value := by
  induction rest generalizing first with
  | nil =>
    intro value mem
    rw [scanl_nil, mem_singleton] at mem
    exact mem ▸ here
  | cons next rest known =>
    obtain ⟨second, later⟩ := forall_mem_cons.mp later
    intro value mem
    rw [scanl_cons] at mem
    rcases mem_cons.mp mem with rfl | mem
    · exact here
    · exact known (here.xor second) later value mem

theorem rollings_small {products : List ℤ} (small : ∀ value ∈ products, Small value) :
    ∀ value ∈ rollings products, Small value := by
  cases products with
  | nil => exact nofun
  | cons first rest =>
    obtain ⟨here, later⟩ := forall_mem_cons.mp small
    exact fun value mem => scanl_small here later value (mem_of_mem_tail mem)

theorem length_rollings (products : List ℤ) : (rollings products).length = products.length - 1 := by
  cases products with
  | nil => rfl
  | cons first rest =>
    unfold rollings
    rw [length_tail, length_scanl, length_cons]

/-! ### Windows -/

theorem length_scanWindow {source : ℕ → ℤ} {other : ℕ → Bool} (blocked : Bool) (distances : List ℕ) :
    (scanWindow source other padId blocked distances).length = distances.length := by
  induction distances generalizing blocked with
  | nil => rfl
  | cons distance distances known =>
    unfold scanWindow
    rw [length_cons, length_cons, known]

theorem scanWindow_mem {source : ℕ → ℤ} {other : ℕ → Bool} {blocked : Bool} {distances : List ℕ}
    (mem : value ∈ scanWindow source other padId blocked distances) :
    value = padId ∨ ∃ distance, value = source distance ∧ source distance ≠ -1 := by
  induction distances generalizing blocked with
  | nil => cases mem
  | cons distance distances known =>
    rcases mem_cons.mp mem with here | later
    · split_ifs at here with closed
      · exact .inl here
      · refine .inr ⟨distance, here, fun dead => closed ?_⟩
        rw [dead, beq_self_eq_true, Bool.or_true, Bool.true_or]
    · exact known later

section Window

variable {hash : NgramHash} {row : List Token} {tokens sequences : List ℤ}

theorem shifted_mem (values : List ℤ) (context distance index : ℕ) :
    shifted values context distance index = -1 ∨ shifted values context distance index ∈ values := by
  unfold shifted
  rw [getD_eq_getElem?_getD]
  cases found : (replicate context (-1) ++ values)[context - distance + index]? with
  | none => exact .inl rfl
  | some value =>
    rcases mem_append.mp (mem_of_getElem? found) with dead | live
    · exact .inl (eq_of_mem_replicate dead)
    · exact .inr live

theorem tokenIds_mem (found : hash.tokenIds row = some tokens) (mem : value ∈ tokens) :
    value = -1 ∨ value ∈ hash.tokenMap := by
  obtain ⟨token, -, read⟩ := forall₂_right (mapM_eq_some.mp found) mem
  obtain ⟨compressed, known, same⟩ := map_eq_some_iff.mp read
  split_ifs at same
  · exact .inr (same ▸ lookup_mem known)
  · exact .inl same.symm

theorem length_windowAt (index : ℕ) : (hash.windowAt tokens sequences index).length = hash.maxNgram := by
  unfold windowAt
  rw [length_scanWindow, length_range]

theorem windowAt_mem {index : ℕ} (padId : hash.padId ∈ hash.tokenMap)
    (found : hash.tokenIds row = some tokens) (mem : value ∈ hash.windowAt tokens sequences index) :
    value ∈ hash.tokenMap := by
  rcases scanWindow_mem mem with rfl | ⟨distance, rfl, live⟩
  · exact padId
  · rcases shifted_mem tokens (hash.maxNgram - 1) distance index with dead | there
    · exact absurd dead live
    · exact (tokenIds_mem found there).resolve_left live

end Window

/-! ### Rows of a window -/

def products (multipliers window : List ℤ) : List ℤ := zipWith (fun token multiplier => token * multiplier) window multipliers

/-- The rows of a window, in unbounded arithmetic. -/
def exactIndices (nHeads : ℕ) (heads : List Head) (multipliers window : List ℤ) : List ℤ :=
  (rollings (products multipliers window)).zipIdx.flatMap fun entry =>
    (slice nHeads heads entry.2).map fun head => entry.1 % head.prime + head.offset

/-- Nothing leaves the signed 64-bit range. -/
structure Exact (nHeads : ℕ) (heads : List Head) (multipliers window : List ℤ) : Prop where
  products : ∀ value ∈ products multipliers window, Fits value
  xors : ∀ value ∈ rollings (Hashing.products multipliers window), Fits value
  sums : ∀ value ∈ exactIndices nHeads heads multipliers window, Fits value

def Inside (head : Head) (index : ℤ) : Prop := head.offset ≤ index ∧ index < head.offset + head.prime

/-- The rows of a table of fewer than `2 ^ 63` rows. -/
theorem emod_inside {head : Head} {rolling rows : ℤ} (positive : 0 < head.prime)
    (within : ((head.offset + head.prime : ℕ) : ℤ) ≤ rows) (table : rows < 2 ^ 63) :
    Inside head (rolling % head.prime + head.offset) ∧ Small (rolling % head.prime + head.offset) := by
  have low := Int.emod_nonneg rolling (show (head.prime : ℤ) ≠ 0 by omega)
  have high := Int.emod_lt_of_pos rolling (show (0 : ℤ) < head.prime by omega)
  exact ⟨⟨by omega, by omega⟩, by omega, by omega⟩

theorem mem_slice {Item : Type} {size index : ℕ} {items : List Item} {item : Item} (mem : item ∈ slice size items index) :
    item ∈ items := mem_of_mem_drop (mem_of_mem_take mem)

theorem flatMap_inside {size : ℕ} {heads : List Head} {hashes : List ℤ} {relation : Head → ℤ → Prop}
    {value : ℤ → Head → ℤ} (each : ∀ head ∈ heads, ∀ rolling ∈ hashes, relation head (value rolling head)) (start : ℕ) :
    List.Forall₂ relation ((range' start hashes.length).flatMap (slice size heads))
      ((hashes.zipIdx start).flatMap fun entry => (slice size heads entry.2).map (value entry.1)) := by
  induction hashes generalizing start with
  | nil => exact .nil
  | cons rolling hashes known =>
    refine rel_append ?_ (known (fun head mem rolling later =>
      each head mem rolling (mem_cons_of_mem _ later)) (start + 1))
    rw [forall₂_map_right_iff]
    exact forall₂_same.mpr fun head mem => each head (mem_slice mem) rolling mem_cons_self

section Layer

variable {nHeads maxNgram : ℕ} {heads : List Head} {multipliers window : List ℤ} {compressedVocabSize rows : ℤ}

section

variable (positive : 0 < compressedVocabSize)
  (compressed : ∀ token ∈ window, 0 ≤ token ∧ token < compressedVocabSize ∧ token < 2 ^ 63)
  (drawn : Multipliers maxNgram compressedVocabSize multipliers)
include positive compressed drawn

theorem products_small : ∀ value ∈ products multipliers window, Small value := by
  intro value mem
  obtain ⟨token, multiplier, there, here, rfl⟩ : ∃ token multiplier, token ∈ window ∧ multiplier ∈ multipliers
      ∧ token * multiplier = value := by
    unfold products at mem
    rw [← map_uncurry_zip_eq_zipWith] at mem
    obtain ⟨pair, paired, same⟩ := mem_map.mp mem
    exact ⟨pair.1, pair.2, (of_mem_zip paired).1, (of_mem_zip paired).2, same⟩
  obtain ⟨natural, below, small⟩ := compressed token there
  obtain ⟨draw, bounded, rfl⟩ := drawn.drawn multiplier here
  exact product_small positive natural below small bounded

/-- **The rows of a layer are in the intervals of its heads, head by head, and nothing overflows.** -/
theorem layerIndices_inside (whole : window.length = maxNgram)
    (many : heads.length = (maxNgram - 1) * nHeads) (separate : Separate heads rows)
    (table : rows < 2 ^ 63) :
    Exact nHeads heads multipliers window
      ∧ List.Forall₂ Inside heads (layerIndices nHeads heads multipliers window) := by
  have small := products_small positive compressed drawn
  have sums : ∀ head ∈ heads, ∀ rolling : ℤ, Inside head (rolling % head.prime + head.offset)
      ∧ Small (rolling % head.prime + head.offset) := fun head mem rolling =>
    emod_inside (separate.positive head mem) (separate.inside head mem) table
  have wrapped : (zipWith (fun token multiplier => int64 (token * multiplier)) window multipliers)
      = products multipliers window := by
    rw [← map_zipWith (f := int64)]
    refine (map_congr_left fun value mem => ?_).trans (map_id _)
    exact (small value mem).fits.wrap
  have exact_ : layerIndices nHeads heads multipliers window = exactIndices nHeads heads multipliers window := by
    unfold layerIndices exactIndices
    rw [wrapped]
    congr 1
    funext entry
    exact map_congr_left fun head mem => (sums head (mem_slice mem) entry.1).2.fits.wrap
  have count : (rollings (products multipliers window)).length = maxNgram - 1 := by
    unfold products
    rw [length_rollings, length_zipWith, whole, drawn.length, Nat.min_self]
  have all : (range' 0 (maxNgram - 1)).flatMap (slice nHeads heads) = heads := by
    rw [← range_eq_range', flatMap_slice, ← many, take_length]
  refine ⟨⟨fun value mem => (small value mem).fits, fun value mem =>
    (rollings_small small value mem).fits, fun value mem => ?_⟩, ?_⟩
  · obtain ⟨entry, -, made⟩ := mem_flatMap.mp mem
    obtain ⟨head, here, rfl⟩ := mem_map.mp made
    exact (sums head (mem_slice here) entry.1).2.fits
  · have both : List.Forall₂ Inside ((range' 0 (rollings (products multipliers window)).length).flatMap
        (slice nHeads heads)) (exactIndices nHeads heads multipliers window) :=
      flatMap_inside (fun head mem rolling _ => (sums head mem rolling).1) 0
    rw [count, all] at both
    rw [exact_]
    exact both

end

end Layer

/-! ### Rows of a batch -/

theorem zipWith_forall₂ {First Second Third : Type} {relation : First → Third → Prop} {make : First → Second → Third}
    {firsts : List First} {seconds : List Second} (many : firsts.length = seconds.length)
    (each : ∀ first ∈ firsts, ∀ second ∈ seconds, relation first (make first second)) :
    List.Forall₂ relation firsts (zipWith make firsts seconds) := by
  induction firsts generalizing seconds with
  | nil =>
    exact .nil
  | cons first firsts known =>
    cases seconds with
    | nil => cases many
    | cons second seconds =>
      refine .cons (each first mem_cons_self second mem_cons_self) (known (Nat.succ.inj many) ?_)
      exact fun other mem next later => each other (mem_cons_of_mem _ mem) next (mem_cons_of_mem _ later)

structure NgramHash.RowsOf (hash : NgramHash) (row : List Token) (indices : List (List (List ℤ))) : Prop where
  positions : indices.length = row.length
  intervals : ∀ rows ∈ indices, List.Forall₂ (List.Forall₂ Inside) hash.layers rows
  exact : ∀ tokens, hash.tokenIds row = some tokens → ∀ index, ∀ layer ∈ hash.layers.zip hash.multipliers,
    Exact hash.nHeads layer.1 layer.2 (hash.windowAt tokens (sequenceIds row) index)
  recent : ∀ index < row.length, (tokenAt row index).live = true →
    ∃ rows, indices[index]? = some rows ∧ hash.indicesOf (recent hash.maxNgram row index) = some rows

section Batch

variable {config : Config} {layerIds : List ℤ} {tokenMap : Option TokenMap} {generator : Generator} {hash : NgramHash}

section

variable (built : hash.Built config layerIds)
include built

theorem NgramHash.Built.separate : List.Forall₂ (fun (entry : ℤ × ℤ) heads => Separate heads entry.2)
      (config.entries.filter fun entry => entry.1 ∈ layerIds) hash.layers := by
  refine (hashLayers_heads built.layers).imp fun entry heads known => ?_
  obtain ⟨before, rfl, enough⟩ := known
  exact takeHeads_separate enough

theorem NgramHash.Built.count (grams : 2 ≤ config.engramMaxNgramSize) (heads : 0 < config.engramNHeads)
    {layer : List Head} (mem : layer ∈ hash.layers) :
    layer.length = (hash.maxNgram - 1) * hash.nHeads := by
  obtain ⟨_, -, before, rfl, -⟩ := forall₂_right (hashLayers_heads built.layers) mem
  rw [length_takeHeads, built.maxNgram, built.nHeads]
  unfold Config.headCount
  obtain ⟨size, same⟩ := Int.eq_ofNat_of_zero_le (show 0 ≤ config.engramMaxNgramSize - 1 by omega)
  obtain ⟨many, each⟩ := Int.eq_ofNat_of_zero_le heads.le
  rw [same, each, Int.toNat_natCast, ← Nat.cast_mul, Int.toNat_natCast]
  congr 1
  omega

section

variable {row : List Token} (accepted : config.Accepted) (grams : 2 ≤ config.engramMaxNgramSize)
  (tables : ∀ entry ∈ config.entries, entry.1 ∈ layerIds → entry.2 < 2 ^ 63)
include accepted grams tables

theorem NgramHash.Built.layer {tokens : List ℤ} (found : hash.tokenIds row = some tokens) (index : ℕ)
    {heads : List Head} {multipliers : List ℤ} (here : heads ∈ hash.layers)
    (drawn : multipliers ∈ hash.multipliers) :
    let window := hash.windowAt tokens (sequenceIds row) index
    Exact hash.nHeads heads multipliers window
      ∧ List.Forall₂ Inside heads (layerIndices hash.nHeads heads multipliers window) := by
  obtain ⟨entry, listed, separate⟩ := forall₂_right built.separate here
  obtain ⟨listed, selected⟩ := mem_filter.mp listed
  have many : 0 < config.engramNHeads := accepted.positive (show ("engram_n_heads", _) ∈ config.positives by
    simp [Config.positives])
  have size : 0 < config.engramCompressedVocabSize := accepted.positive
    (show ("engram_compressed_vocab_size", _) ∈ config.positives by simp [Config.positives])
  have each := built.each multipliers drawn
  rw [← built.maxNgram] at each
  exact layerIndices_inside size (fun token mem => built.tokens token (windowAt_mem built.padId found mem)) each
    (length_windowAt index) (built.count grams many here) separate (tables entry listed (of_decide_eq_true selected))

theorem NgramHash.Built.rows {indices : List (List (List ℤ))}
    (found : hash.forwardRow row = some indices) :
    hash.RowsOf row indices := by
  have compressed : hash.Compressed := fun token mem => (built.tokens token mem).1
  have whole := found
  obtain ⟨tokens, read, made⟩ := bind_eq_some_iff.mp found
  have long : ¬ hash.maxNgram < 2 := by
    rw [built.maxNgram]
    omega
  rw [if_neg long] at made
  cases made
  have lengths : hash.layers.length = hash.multipliers.length := built.selected.trans built.multipliers.symm
  refine ⟨by rw [length_map, length_range], fun rows mem => ?_, fun other again index layer mem => ?_,
    fun index => forward_recent compressed whole⟩
  · obtain ⟨index, -, rfl⟩ := mem_map.mp mem
    exact zipWith_forall₂ lengths fun heads here multipliers drawn =>
      (built.layer accepted grams tables read index here drawn).2
  · obtain ⟨here, drawn⟩ := of_mem_zip mem
    exact (built.layer accepted grams tables again index here drawn).1

end

theorem NgramHash.Built.forwards (grams : 2 ≤ config.engramMaxNgramSize) {row : List Token}
    (known : ∀ token ∈ row, 0 ≤ token.id ∧ token.id < config.vocabSize) :
    ∃ indices, hash.forwardRow row = some indices := by
  have found : ∃ tokens, hash.tokenIds row = some tokens := by
    refine mapM_isSome fun token mem => ?_
    obtain ⟨low, high⟩ := known token mem
    have inside : (rowAt hash.tokenMap token.id).isSome = true :=
      rowAt_isSome.mpr ⟨low, by rw [built.vocabulary]; exact high⟩
    unfold lookup
    rw [if_neg (not_lt.mpr low), isSome_map]
    exact inside
  obtain ⟨tokens, read⟩ := found
  have long : ¬ hash.maxNgram < 2 := by
    rw [built.maxNgram]
    omega
  exact ⟨_, bind_eq_some_iff.mpr ⟨tokens, read, if_neg long⟩⟩

end

def indexAt (outputs : List (List (List (List ℤ)))) (row index : ℕ) : Option (List (List ℤ)) :=
  outputs[row]?.bind fun indices => indices[index]?

/-- **Rows of n-grams.** For every accepted configuration and every token map: the heads of each layer are disjoint
intervals of its table; each batch of vocabulary ids is hashed; each row is in the interval of its own head, with no
overflow on the way; the rows of a live position are those of its recent tokens; and they are the same wherever its
sequence stands. A table is a tensor, and has fewer than `2 ^ 63` rows. -/
theorem ngram_hash (accepted : config.Accepted) (grams : 2 ≤ config.engramMaxNgramSize)
    (tables : ∀ entry ∈ config.entries, entry.1 ∈ layerIds → entry.2 < 2 ^ 63)
    (built : build config layerIds tokenMap generator = .ok hash) :
    List.Forall₂ (fun (entry : ℤ × ℤ) heads => Separate heads entry.2)
      (config.entries.filter fun entry => entry.1 ∈ layerIds) hash.layers
      ∧ (∀ batch, (∀ row ∈ batch, ∀ token ∈ row, 0 ≤ token.id ∧ token.id < config.vocabSize) →
          ∃ outputs, hash.forward batch = some outputs)
      ∧ (∀ batch outputs, hash.forward batch = some outputs → List.Forall₂ hash.RowsOf batch outputs)
      ∧ ∀ batch outputs batch' outputs', hash.forward batch = some outputs → hash.forward batch' = some outputs' →
          ∀ (line line' : ℕ) (before part after before' part' after' : List Token) (sequence sequence' : ℤ),
            batch[line]? = some (before ++ part ++ after) → batch'[line']? = some (before' ++ part' ++ after') →
            Occupies part sequence → Absent before sequence → Occupies part' sequence' → Absent before' sequence' →
            SameTokens part part' → ∀ place < part.length, (tokenAt part place).live = true →
            ∃ rows, indexAt outputs line (before.length + place) = some rows
              ∧ indexAt outputs' line' (before'.length + place) = some rows := by
  have known := build_ok built
  have each : ∀ batch outputs, hash.forward batch = some outputs → List.Forall₂ hash.RowsOf batch outputs :=
    fun batch outputs found => (mapM_eq_some.mp found).imp fun row indices => known.rows accepted grams tables
  refine ⟨known.separate, fun batch vocabulary => ?_, each, ?_⟩
  · refine mapM_isSome fun row member => ?_
    exact isSome_iff_exists.mpr (known.forwards grams (vocabulary row member))
  · intro batch outputs batch' outputs' found found' line line' before part after before' part' after' sequence sequence'
      here here' mine others mine' others' same place inside live
    have there : ∀ {batch outputs} {line : ℕ} {row : List Token}, hash.forward batch = some outputs →
        batch[line]? = some row → ∀ index < row.length, (tokenAt row index).live = true →
        ∃ rows, indexAt outputs line index = some rows ∧ hash.indicesOf (recent hash.maxNgram row index) = some rows := by
      intro batch outputs line row found here index inside live
      obtain ⟨indices, out, rowsOf⟩ := forall₂_getElem? (each _ _ found) here
      obtain ⟨rows, at_, read⟩ := rowsOf.recent index inside live
      unfold indexAt
      rw [out]
      exact ⟨rows, at_, read⟩
    have lengths : part.length = part'.length := same.length_eq
    have live' : (tokenAt part' place).live = true := by rw [← (same.tokenAt inside).1]; exact live
    obtain ⟨rows, at_, read⟩ := there found here (before.length + place)
      (by rw [length_append, length_append]; omega) (by rw [tokenAt_part inside]; exact live)
    obtain ⟨rows', at_', read'⟩ := there found' here' (before'.length + place)
      (by rw [length_append, length_append]; omega) (by rw [tokenAt_part (lengths ▸ inside)]; exact live')
    rw [recent_part hash.maxNgram mine others mine' others' same inside live] at read
    exact ⟨rows, at_, by rw [at_', ← Option.mem_unique read read']⟩

end Batch

/-! ### Two layers -/

def fourLayers (engramLayerIds : List ℤ) : Config where
  vocabSize := 32
  numHiddenLayers := 4
  compressRatios := [0, 0, 0, 0]
  kvSourceLayerIds := []
  indexSourceLayerIds := []
  candidateSourceLayerId := -1
  engramLayerIds := engramLayerIds
  engramVocabSize := 31
  engramNumEmbeddings := [100, 100]
  engramMaxNgramSize := 3
  engramNHeads := 1
  engramCompressedVocabSize := 32
  engramPadId := 0

/-- What the generator draws for layers 1 and 3. -/
def recorded : Generator where
  integers seed bound size :=
    if size = 3 ∧ bound = 144115188075855871 ∧ seed = 10007 then
      [118650432209603643, 7493640653728488, 55676810147952557]
    else if size = 3 ∧ bound = 144115188075855871 ∧ seed = 30021 then
      [42620361103583749, 126434023944545587, 16842436837986878]
    else replicate size 0
  length seed bound size := by
    split_ifs with one three
    · rw [one.1]
      rfl
    · rw [three.1]
      rfl
    · exact length_replicate
  below seed bound size positive := by
    split_ifs with one three
    · rw [one.2.1]
      decide
    · rw [three.2.1]
      decide
    · exact fun value member => eq_of_mem_replicate member ▸ positive

theorem first_heads : takeHeads 2 30 0 [] = [⟨31, 0⟩, ⟨37, 31⟩] := by
  have one : nextPrime 30 [] = 31 := nextPrime_eq (by decide) (by decide) (by norm_num)
    fun other after before => by omega
  have two : nextPrime 31 [31] = 37 := nextPrime_eq (by decide) (by decide) (by norm_num) fun other after before => by
    right
    interval_cases other <;> norm_num
  simp only [takeHeads, one, two]

theorem second_heads : takeHeads 2 30 0 [37, 31] = [⟨41, 0⟩, ⟨43, 41⟩] := by
  have one : nextPrime 30 [37, 31] = 41 := nextPrime_eq (by decide) (by decide) (by norm_num) fun other after before => by
    interval_cases other <;> norm_num
  have two : nextPrime 41 [41, 37, 31] = 43 := nextPrime_eq (by decide) (by decide) (by norm_num) fun other after before => by
    interval_cases other
    norm_num
  simp only [takeHeads, one, two]

theorem both_heads (first second : ℤ) : hashLayers 2 30 [first, second] [(first, 100), (second, 100)] []
    = .ok [[⟨31, 0⟩, ⟨37, 31⟩], [⟨41, 0⟩, ⟨43, 41⟩]] := by
  have later : hashLayers 2 30 [first, second] [(second, 100)] [37, 31] = .ok [[⟨41, 0⟩, ⟨43, 41⟩]] := by
    simp only [hashLayers, second_heads, mem_cons, true_or, or_true, if_true]
    rfl
  unfold hashLayers
  simp only [first_heads, mem_cons, true_or, if_true]
  show (do
    let later ← hashLayers 2 30 [first, second] [(second, 100)] [37, 31]
    .ok ([⟨31, 0⟩, ⟨37, 31⟩] :: later) : Except String (List (List Head))) = _
  rw [later]
  rfl

def twoLayers : NgramHash where
  maxNgram := 3
  nHeads := 1
  padId := 0
  tokenMap := (range 32).map fun (id : ℕ) => (id : ℤ)
  layers := [[⟨31, 0⟩, ⟨37, 31⟩], [⟨41, 0⟩, ⟨43, 41⟩]]
  multipliers := [[237300864419207287, 14987281307456977, 111353620295905115],
    [85240722207167499, 252868047889091175, 33684873675973757]]

theorem twoLayers_built : build (fourLayers [1, 3]) [1, 3] none recorded = .ok twoLayers := by
  have heads := both_heads 1 3
  unfold build
  rw [show hashLayers (fourLayers [1, 3]).headCount (fourLayers [1, 3]).firstPrime [1, 3] (fourLayers [1, 3]).entries []
    = _ from heads]
  rfl

theorem two_layers_hash :
    List.Forall₂ (fun (entry : ℤ × ℤ) heads => Separate heads entry.2) [(1, 100), (3, 100)] twoLayers.layers
      ∧ ∀ batch outputs, twoLayers.forward batch = some outputs → List.Forall₂ twoLayers.RowsOf batch outputs := by
  have hashed := ngram_hash (show (fourLayers [1, 3]).Accepted from rfl) (by decide)
    (by decide) twoLayers_built
  exact ⟨hashed.1, hashed.2.2.1⟩

end TinyDSV41.Engram.Hashing
