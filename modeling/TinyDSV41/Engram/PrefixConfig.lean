/-
**Rows of a prefix of the layers.**

* `prefixConfig` — the configuration of the first layers of a model.
* `Keeps` — the layers of the prefix keep their primes, offsets, multipliers and rows.
* `headsAt` — the heads of a listed layer depend only on how many are listed before it.
* **`prefix_rows`** — rows are kept exactly if no layer that is dropped is listed before one that is kept.
-/

import TinyDSV41.Engram.NgramRows
import Mathlib.Data.List.NodupEquivFin

namespace TinyDSV41.Engram.Hashing

open List Lib NgramHash Config
open Prod (fst snd)

/-- The values of `_prefix_config`. -/
def prefixValues (full : Config) (numLayers : ℤ) : Config :=
  let candidateSource := full.candidateSourceLayerId
  let engram := full.entries.filter fun entry => entry.1 < numLayers
  { full with
    numHiddenLayers := numLayers
    compressRatios := full.compressRatios.take numLayers.toNat
    kvSourceLayerIds := full.kvSourceLayerIds.filter fun layerId => layerId < numLayers
    indexSourceLayerIds := full.indexSourceLayerIds.filter fun layerId => layerId < numLayers
    candidateSourceLayerId := if 0 ≤ candidateSource ∧ candidateSource < numLayers then candidateSource else -1
    engramLayerIds := engram.map fst
    engramNumEmbeddings := engram.map snd }

/-- `_prefix_config`, of these fields. -/
def prefixConfig (full : Config) (numLayers : ℤ) : Except String Config := do
  let count := full.numHiddenLayers
  require (1 ≤ numLayers ∧ numLayers ≤ count) s!"a full checkpoint prefix supports one to {count} real layers"
  let values := prefixValues full numLayers
  values.validate
  .ok values

def Config.modelLayers (config : Config) : List ℤ :=
  config.engramLayerIds.filter fun layerId => 0 ≤ layerId ∧ layerId < config.numHiddenLayers

def keptRows {Row : Type} (numLayers : ℤ) (layerIds : List ℤ) (rows : List Row) : List Row :=
  ((layerIds.zip rows).filter fun entry => entry.1 < numLayers).map snd

/-- The hash of a prefix addresses its layers as the hash of the model does. -/
structure KeepsRows (numLayers : ℤ) (layerIds : List ℤ) (hash values : NgramHash) : Prop where
  heads : values.layers = keptRows numLayers layerIds hash.layers
  multipliers : values.multipliers = keptRows numLayers layerIds hash.multipliers
  indices : ∀ batch, values.forward batch
    = (hash.forward batch).map fun outputs => outputs.map fun indices => indices.map (keptRows numLayers layerIds)

/-- The layers of the prefix, if there are any, are addressed as before. -/
def Keeps (full values : Config) (numLayers : ℤ) (tokenMap : Option TokenMap) (generator : Generator) (hash : NgramHash) :
    Prop :=
  values.modelLayers = [] ∨ ∃ hashed, build values values.modelLayers tokenMap generator = .ok hashed
    ∧ KeepsRows numLayers full.modelLayers hash hashed

/-! ### Heads in the order of the list -/

section Listed

variable {count start index other : ℕ} {used spent : List ℕ}

def spend (count start : ℕ) (used : List ℕ) : List ℕ := ((takeHeads count start 0 used).map Head.prime).reverse ++ used

/-- The heads of a layer that is listed after so many others. -/
def headsAt (count start : ℕ) (used : List ℕ) (index : ℕ) : List Head :=
  takeHeads count start 0 ((spend count start)^[index] used)

theorem spend_mono (within : index ≤ other) : (spend count start)^[index] used ⊆ (spend count start)^[other] used := by
  induction other, within using Nat.le_induction with
  | base => exact List.Subset.refl _
  | succ other _ known =>
    rw [Function.iterate_succ_apply']
    exact List.Subset.trans known (subset_append_right _ _)

theorem headsAt_ne (some_ : 0 < count) (before : index < other) :
    headsAt count start used index ≠ headsAt count start used other := by
  intro same
  obtain ⟨head, mem⟩ : ∃ head, head ∈ headsAt count start used other :=
    exists_mem_of_length_pos (by unfold headsAt; rw [length_takeHeads]; exact some_)
  refine takeHeads_fresh mem (spend_mono before ?_)
  rw [Function.iterate_succ_apply']
  refine mem_append_left _ (mem_reverse.mpr (mem_map_of_mem ?_))
  show head ∈ headsAt count start used index
  rw [same]
  exact mem

theorem nextPrime_mono {value further : ℕ} (later : value ≤ further) (more : ∀ prime ∈ used, value < prime → prime ∈ spent) :
    nextPrime value used ≤ nextPrime further spent := by
  obtain ⟨above, fresh, prime⟩ := nextPrime_spec further spent
  refine Nat.find_min' (exists_next value used) ⟨by omega, fun mem => ?_, (isPrime_iff _).mpr prime⟩
  exact fresh (more _ mem (by omega))

theorem rowsNeeded_mono {current further offset offset' : ℕ} (later : current ≤ further)
    (more : ∀ prime ∈ used, current < prime → prime ∈ spent) :
    rowsNeeded (takeHeads count current offset used) ≤ rowsNeeded (takeHeads count further offset' spent) := by
  induction count generalizing current further offset offset' used spent with
  | zero => exact le_rfl
  | succ count known =>
    have next := nextPrime_mono later more
    refine Nat.add_le_add next (known next fun prime mem above => ?_)
    have := (nextPrime_spec current used).1
    rcases mem_cons.mp mem with rfl | mem
    · exact absurd above (lt_irrefl _)
    · exact mem_cons_of_mem _ (more prime mem (by omega))

theorem rowsNeeded_headsAt (within : index ≤ other) :
    rowsNeeded (headsAt count start used index) ≤ rowsNeeded (headsAt count start used other) :=
  rowsNeeded_mono le_rfl fun _ mem _ => spend_mono within mem

/-- The heads of the selected ones of the listed layers. -/
def listedHeads (count start : ℕ) (used : List ℕ) (listed : List ((ℤ × ℤ) × ℕ)) : List (List Head) :=
  listed.map fun entry => headsAt count start used entry.2

/-- **The heads of layers are those of their places in the list.** -/
theorem hashLayers_iff {selected : List ℤ} {entries : List (ℤ × ℤ)} {layers : List (List Head)} :
    hashLayers count start selected entries used = .ok layers ↔
      (∀ index entry, entries[index]? = some entry → (rowsNeeded (headsAt count start used index) : ℤ) ≤ entry.2)
        ∧ layers = listedHeads count start used (entries.zipIdx.filter fun entry => entry.1.1 ∈ selected) := by
  induction entries generalizing used layers with
  | nil =>
    constructor
    · intro done
      cases done
      exact ⟨nofun, rfl⟩
    · rintro ⟨-, rfl⟩
      rfl
  | cons entry entries known =>
    have shifted : listedHeads count start used ((entries.zipIdx 1).filter fun entry => entry.1.1 ∈ selected)
        = listedHeads count start (spend count start used) (entries.zipIdx.filter fun entry => entry.1.1 ∈ selected) := by
      unfold listedHeads
      rw [show entries.zipIdx 1 = _ from zipIdx_succ, filter_map, map_map]
      rfl
    have taken : listedHeads count start used (((entry :: entries).zipIdx).filter fun entry => entry.1.1 ∈ selected)
        = if entry.1 ∈ selected then takeHeads count start 0 used
            :: listedHeads count start (spend count start used) (entries.zipIdx.filter fun entry => entry.1.1 ∈ selected)
          else listedHeads count start (spend count start used)
            (entries.zipIdx.filter fun entry => entry.1.1 ∈ selected) := by
      rw [zipIdx_cons, filter_cons]
      by_cases mine : entry.1 ∈ selected
      · rw [if_pos mine, if_pos (decide_eq_true mine), ← shifted]
        rfl
      · rw [if_neg mine, if_neg (by simpa using mine), ← shifted]
    have enough : (∀ index listed, (entry :: entries)[index]? = some listed →
        (rowsNeeded (headsAt count start used index) : ℤ) ≤ listed.2) ↔
        (rowsNeeded (takeHeads count start 0 used) : ℤ) ≤ entry.2 ∧ ∀ index listed, entries[index]? = some listed →
          (rowsNeeded (headsAt count start (spend count start used) index) : ℤ) ≤ listed.2 := by
      constructor
      · exact fun each => ⟨each 0 entry rfl, fun index => each (index + 1)⟩
      · rintro ⟨here, later⟩ index listed found
        cases index with
        | zero =>
          cases found
          exact here
        | succ index => exact later index listed found
    rw [taken, enough]
    show (do
      let _ ← require ((rowsNeeded (takeHeads count start 0 used) : ℤ) ≤ entry.2) _
      let later ← hashLayers count start selected entries (spend count start used)
      if entry.1 ∈ selected then .ok (takeHeads count start 0 used :: later) else .ok later : Except String _) = .ok layers
        ↔ _
    simp only [bind_eq_ok, require_eq_ok, known]
    constructor
    · rintro ⟨-, here, later, ⟨each, rfl⟩, made⟩
      refine ⟨⟨here, each⟩, ?_⟩
      split_ifs at made ⊢ with mine
      all_goals exact (Except.ok.inj made).symm
    · rintro ⟨⟨here, each⟩, rfl⟩
      refine ⟨(), here, _, ⟨each, rfl⟩, ?_⟩
      split_ifs with mine
      · rfl
      · rfl

/-! ### Dropped layers -/

def Kept (numLayers layerId : ℤ) : Prop := 0 ≤ layerId ∧ layerId < numLayers

instance (numLayers layerId : ℤ) : Decidable (Kept numLayers layerId) := instDecidableAnd

/-- No layer that is dropped is listed before one that is kept. -/
def KeptFirst (numLayers : ℤ) (layerIds : List ℤ) : Prop :=
  layerIds.Pairwise fun before after => numLayers ≤ before → ¬ Kept numLayers after

instance (numLayers : ℤ) (layerIds : List ℤ) : Decidable (KeptFirst numLayers layerIds) :=
  inferInstanceAs (Decidable (List.Pairwise _ layerIds))

variable {numLayers : ℤ} {entries : List (ℤ × ℤ)}

def keptOf (numLayers : ℤ) (entries : List (ℤ × ℤ)) (index : ℕ) : List ((ℤ × ℤ) × ℕ) :=
  (entries.zipIdx index).filter fun entry => Kept numLayers entry.1.1

def keptIn (numLayers : ℤ) (entries : List (ℤ × ℤ)) (index : ℕ) : List ((ℤ × ℤ) × ℕ) :=
  keptOf numLayers (entries.filter fun entry => entry.1 < numLayers) index

theorem keptOf_cons (entry : ℤ × ℤ) : keptOf numLayers (entry :: entries) index
    = if Kept numLayers entry.1 then (entry, index) :: keptOf numLayers entries (index + 1)
      else keptOf numLayers entries (index + 1) := by
  unfold keptOf
  rw [zipIdx_cons, filter_cons]
  simp only [decide_eq_true_eq]

theorem keptIn_cons (entry : ℤ × ℤ) : keptIn numLayers (entry :: entries) index
    = if entry.1 < numLayers then
        if Kept numLayers entry.1 then (entry, index) :: keptIn numLayers entries (index + 1)
        else keptIn numLayers entries (index + 1)
      else keptIn numLayers entries index := by
  unfold keptIn
  rw [filter_cons]
  by_cases below : entry.1 < numLayers
  · rw [if_pos below, if_pos (decide_eq_true below), keptOf_cons]
  · rw [if_neg below, if_neg (by simpa using below)]

theorem keptOf_none (none_ : ∀ entry ∈ entries, ¬ Kept numLayers entry.1) : keptOf numLayers entries index = [] := by
  refine filter_eq_nil_iff.mpr fun entry mem => ?_
  rw [decide_eq_true_eq]
  exact none_ entry.1 (fst_mem_of_mem_zipIdx mem)

theorem keptIn_none (none_ : ∀ entry ∈ entries, ¬ Kept numLayers entry.1) : keptIn numLayers entries index = [] :=
  keptOf_none fun entry mem => none_ entry (mem_of_mem_filter mem)

theorem none_kept (some_ : 0 < count) (before : index < other)
    (same : listedHeads count start used (keptIn numLayers entries index)
      = listedHeads count start used (keptOf numLayers entries other)) :
    ∀ entry ∈ entries, ¬ Kept numLayers entry.1 := by
  induction entries generalizing index other with
  | nil => exact nofun
  | cons entry entries known =>
    rw [keptIn_cons, keptOf_cons] at same
    by_cases kept : Kept numLayers entry.1
    · rw [if_pos kept.2, if_pos kept, if_pos kept] at same
      exact absurd (cons.inj same).1 (headsAt_ne some_ before)
    · rw [if_neg kept, if_neg kept] at same
      refine forall_mem_cons.mpr ⟨kept, ?_⟩
      by_cases below : entry.1 < numLayers
      · rw [if_pos below] at same
        exact known (Nat.succ_lt_succ before) same
      · rw [if_neg below] at same
        exact known (Nat.lt_succ_of_lt before) same

/-- **Kept layers have the heads they had exactly if no dropped layer was listed before one of them.** -/
theorem kept_heads (some_ : 0 < count) : listedHeads count start used (keptIn numLayers entries index)
      = listedHeads count start used (keptOf numLayers entries index)
    ↔ KeptFirst numLayers (entries.map fst) := by
  unfold KeptFirst
  induction entries generalizing index with
  | nil => exact ⟨fun _ => .nil, fun _ => rfl⟩
  | cons entry entries known =>
    rw [keptIn_cons, keptOf_cons, map_cons, pairwise_cons]
    have free : entry.1 < numLayers → ∀ after ∈ entries.map fst, numLayers ≤ entry.1 → ¬ Kept numLayers after :=
      fun below _ _ above => absurd below (not_lt.mpr above)
    by_cases kept : Kept numLayers entry.1
    · rw [if_pos kept.2, if_pos kept, if_pos kept]
      constructor
      · exact fun same => ⟨free kept.2, known.mp (cons.inj same).2⟩
      · exact fun both => congrArg (headsAt count start used index :: ·) (known.mpr both.2)
    · rw [if_neg kept, if_neg kept]
      by_cases below : entry.1 < numLayers
      · rw [if_pos below, known]
        exact ⟨fun later => ⟨free below, later⟩, And.right⟩
      · rw [if_neg below]
        constructor
        · intro same
          have none_ := none_kept some_ (Nat.lt_succ_self index) same
          have gone : ∀ after ∈ entries.map fst, ¬ Kept numLayers after := by
            intro after mem
            obtain ⟨listed, within, rfl⟩ := mem_map.mp mem
            exact none_ listed within
          refine ⟨fun after mem _ => gone after mem, ?_⟩
          exact pairwise_of_forall_mem_list fun _ _ after mem _ => gone after mem
        · rintro ⟨gone, -⟩
          have none_ : ∀ listed ∈ entries, ¬ Kept numLayers listed.1 := fun listed mem =>
            gone listed.1 (mem_map_of_mem mem) (not_lt.mp below)
          rw [keptIn_none none_, keptOf_none none_]

theorem keptOf_entries : (keptOf numLayers entries index).map fst
    = entries.filter fun entry => Kept numLayers entry.1 := by
  conv_rhs => rw [← zipIdx_map_fst index entries, filter_map]
  rfl

theorem keptIn_entries : (keptIn numLayers entries index).map fst
    = entries.filter fun entry => Kept numLayers entry.1 := by
  unfold keptIn
  rw [keptOf_entries, filter_filter]
  refine filter_congr fun entry _ => ?_
  rw [Bool.and_eq_left_iff_imp]
  exact fun kept => decide_eq_true (of_decide_eq_true kept).2

theorem kept_no_heads : listedHeads 0 start used (keptIn numLayers entries index)
    = listedHeads 0 start used (keptOf numLayers entries other) := by
  have empty : ∀ listed : List ((ℤ × ℤ) × ℕ), listedHeads 0 start used listed = (listed.map fst).map fun _ => [] := by
    intro listed
    rw [map_map]
    rfl
  rw [empty, empty, keptIn_entries, keptOf_entries]

theorem filter_getElem? {Item : Type} {items : List Item} {keep : Item → Bool} {place : ℕ} {item : Item}
    (found : (items.filter keep)[place]? = some item) : ∃ further, place ≤ further ∧ items[further]? = some item := by
  obtain ⟨embed, same⟩ := sublist_iff_exists_orderEmbedding_getElem?_eq.mp (filter_sublist (p := keep) (l := items))
  exact ⟨embed place, embed.strictMono.le_apply, by rw [← same, found]⟩

end Listed

/-! ### Hashes of a model and of a prefix -/

section Models

variable {config full values : Config} {layerIds : List ℤ} {tokenMap : Option TokenMap} {generator : Generator}
  {hash : NgramHash} {numLayers : ℤ}

def drawn (generator : Generator) (config : Config) (layerId : ℤ) : List ℤ :=
  (generator.integers (10007 * layerId) (multiplierBound config.engramCompressedVocabSize)
    config.engramMaxNgramSize.toNat).map fun (value : ℕ) => (value : ℤ) * 2 + 1

theorem buildHashMultipliers_iff {rows : List (List ℤ)} :
    buildHashMultipliers generator layerIds config.engramMaxNgramSize.toNat config.engramCompressedVocabSize = .ok rows
      ↔ layerIds ≠ [] ∧ (∀ layerId ∈ layerIds, 0 ≤ layerId) ∧ rows = layerIds.map (drawn generator config) := by
  unfold buildHashMultipliers
  simp only [require_eq_ok, mapM_eq_ok, bind_eq_ok]
  constructor
  · rintro ⟨-, some_, both⟩
    refine ⟨some_, fun layerId mem => ?_, ?_⟩
    · obtain ⟨_, -, _, natural, -⟩ := forall₂_left both mem
      exact natural
    · have same : layerIds.map (drawn generator config) = rows.map id :=
        forall₂_map_eq both fun layerId row known => by
          obtain ⟨_, -, made⟩ := known
          exact Except.ok.inj made
      rw [same, map_id]
  · rintro ⟨some_, natural, rfl⟩
    refine ⟨(), some_, ?_⟩
    rw [forall₂_map_right_iff]
    exact forall₂_same.mpr fun layerId mem => ⟨(), natural layerId mem, rfl⟩

theorem Config.Accepted.listed (accepted : config.Accepted) : config.entries.map fst = config.engramLayerIds := by
  obtain ⟨_, -, rest⟩ := bind_eq_ok.mp accepted
  obtain ⟨_, -, rest⟩ := bind_eq_ok.mp rest
  obtain ⟨_, many, -⟩ := bind_eq_ok.mp rest
  rw [require_eq_ok] at many
  unfold entries
  rw [map_fst_zip many.ge]

theorem prefixConfig_ok (prefixed : prefixConfig full numLayers = .ok values) :
    numLayers ≤ full.numHiddenLayers ∧ values = prefixValues full numLayers := by
  obtain ⟨_, bounds, rest⟩ := bind_eq_ok.mp prefixed
  rw [require_eq_ok] at bounds
  obtain ⟨_, -, same⟩ := bind_eq_ok.mp rest
  exact ⟨bounds.2, (Except.ok.inj same).symm⟩

theorem prefix_entries : (prefixValues full numLayers).entries = full.entries.filter fun entry => entry.1 < numLayers :=
  (zip_of_prod rfl rfl).symm

def selectedOf (config : Config) : List ((ℤ × ℤ) × ℕ) := keptOf config.numHiddenLayers config.entries 0

section

variable (listed : config.entries.map fst = config.engramLayerIds)
include listed

theorem modelLayers_eq : config.modelLayers = (selectedOf config).map fun entry => entry.1.1 := by
  unfold modelLayers selectedOf
  rw [← listed, filter_map, show (fun entry : (ℤ × ℤ) × ℕ => entry.1.1) = fst ∘ fst from rfl,
    ← map_map, keptOf_entries]
  rfl

theorem selectedOf_eq :
    (config.entries.zipIdx.filter fun entry => entry.1.1 ∈ config.modelLayers) = selectedOf config := by
  refine filter_congr fun entry mem => decide_eq_decide.mpr ?_
  unfold modelLayers
  rw [mem_filter, ← listed, decide_eq_true_eq]
  exact ⟨And.right, fun kept => ⟨List.mem_map_of_mem (fst_mem_of_mem_zipIdx mem), kept⟩⟩

theorem model_layers (built : build config config.modelLayers tokenMap generator = .ok hash) :
    hash.layers = listedHeads config.headCount config.firstPrime [] (selectedOf config)
      ∧ hash.multipliers = (selectedOf config).map fun entry => drawn generator config entry.1.1 := by
  obtain ⟨-, -, -, -, -, hashed, -, -, draws, -, -⟩ := build_iff.mp built
  refine ⟨?_, ?_⟩
  · rw [(hashLayers_iff.mp hashed).2, selectedOf_eq listed]
  · rw [(buildHashMultipliers_iff.mp draws).2.2, modelLayers_eq listed, map_map]
    rfl

end

theorem keptRows_map {Item Row : Type} (items : List Item) (id : Item → ℤ) (row : Item → Row) :
    keptRows numLayers (items.map id) (items.map row) = (items.filter fun item => id item < numLayers).map row := by
  unfold keptRows
  rw [zip_map', filter_map, map_map]
  rfl

theorem selectedOf_filter (within : numLayers ≤ full.numHiddenLayers) :
    ((selectedOf full).filter fun entry => entry.1.1 < numLayers) = keptOf numLayers full.entries 0 := by
  unfold selectedOf keptOf
  rw [filter_filter]
  refine filter_congr fun entry _ => ?_
  rw [← Bool.decide_and]
  refine decide_eq_decide.mpr ⟨fun both => ⟨both.2.1, both.1⟩, fun kept => ⟨kept.2, kept.1, ?_⟩⟩
  have := kept.2
  omega

theorem selectedOf_beginning : selectedOf (prefixValues full numLayers) = keptIn numLayers full.entries 0 := by
  unfold selectedOf keptIn
  rw [prefix_entries]
  rfl

theorem prefix_listed (full : Config) (numLayers : ℤ) :
    (prefixValues full numLayers).entries.map fst = (prefixValues full numLayers).engramLayerIds := by
  rw [prefix_entries]
  rfl

theorem prefix_layers (full : Config) (numLayers : ℤ) :
    (prefixValues full numLayers).modelLayers = (keptIn numLayers full.entries 0).map fun entry => entry.1.1 := by
  rw [modelLayers_eq (prefix_listed full numLayers), selectedOf_beginning]

theorem kept_layers (accepted : full.Accepted) (within : numLayers ≤ full.numHiddenLayers)
    (built : build full full.modelLayers tokenMap generator = .ok hash) :
    keptRows numLayers full.modelLayers hash.layers
        = listedHeads full.headCount full.firstPrime [] (keptOf numLayers full.entries 0)
      ∧ keptRows numLayers full.modelLayers hash.multipliers
        = (keptOf numLayers full.entries 0).map (fun entry => drawn generator full entry.1.1)
      ∧ ∀ window, keptRows numLayers full.modelLayers (hash.windowIndices window)
        = zipWith (fun heads multipliers => layerIndices hash.nHeads heads multipliers window)
            (keptRows numLayers full.modelLayers hash.layers) (keptRows numLayers full.modelLayers hash.multipliers) := by
  obtain ⟨heads, draws⟩ := model_layers accepted.listed built
  unfold listedHeads at heads ⊢
  have windows : ∀ window, hash.windowIndices window = (selectedOf full).map fun entry =>
      layerIndices hash.nHeads (headsAt full.headCount full.firstPrime [] entry.2) (drawn generator full entry.1.1) window := by
    intro window
    unfold windowIndices
    rw [heads, draws, zipWith_map, zipWith_self]
  rw [modelLayers_eq accepted.listed, heads, draws, keptRows_map, keptRows_map, selectedOf_filter within]
  refine ⟨rfl, rfl, fun window => ?_⟩
  rw [windows, keptRows_map, selectedOf_filter within, zipWith_map, zipWith_self]

theorem keptRows_mem {Row : Type} {layerIds : List ℤ} {rows : List Row} {row : Row}
    (mem : row ∈ keptRows numLayers layerIds rows) : row ∈ rows := by
  obtain ⟨pair, within, rfl⟩ := mem_map.mp mem
  exact (of_mem_zip (mem_of_mem_filter within)).2

/-- The hash of a prefix, if its layers have the heads they had. -/
theorem prefix_built (accepted : full.Accepted) (within : numLayers ≤ full.numHiddenLayers)
    (built : build full full.modelLayers tokenMap generator = .ok hash)
    (same : listedHeads full.headCount full.firstPrime [] (keptIn numLayers full.entries 0)
      = listedHeads full.headCount full.firstPrime [] (keptOf numLayers full.entries 0))
    (some_ : (prefixValues full numLayers).modelLayers ≠ []) :
    ∃ hashed, build (prefixValues full numLayers) (prefixValues full numLayers).modelLayers tokenMap generator
        = .ok hashed ∧ KeepsRows numLayers full.modelLayers hash hashed := by
  obtain ⟨heads, draws, windows⟩ := kept_layers accepted within built
  obtain ⟨chosen, vocabulary, compressed, found, -, hashed, fits, shape, drew, grams, perLayer⟩ := build_iff.mp built
  have layerIds := prefix_layers full numLayers
  have ids : (keptIn numLayers full.entries 0).map (fun entry => entry.1.1)
      = (keptOf numLayers full.entries 0).map fun entry => entry.1.1 := by
    have both : (keptIn numLayers full.entries 0).map fst = (keptOf numLayers full.entries 0).map fst :=
      keptIn_entries.trans keptOf_entries.symm
    have firsts := congrArg (map fst) both
    rw [map_map, map_map] at firsts
    exact firsts
  have multipliers : keptRows numLayers full.modelLayers hash.multipliers
      = (prefixValues full numLayers).modelLayers.map (drawn generator (prefixValues full numLayers)) := by
    rw [draws, layerIds, ids, map_map]
    rfl
  refine ⟨{ hash with
    layers := keptRows numLayers full.modelLayers hash.layers
    multipliers := keptRows numLayers full.modelLayers hash.multipliers }, build_iff.mpr
      ⟨chosen, vocabulary, compressed, found, fun layerId => mem_of_mem_filter,
        hashLayers_iff.mpr ⟨fun index entry there => ?_, ?_⟩, fun heads mem => fits heads (keptRows_mem mem),
        ⟨?_, shape.2⟩, ?_, grams, perLayer⟩, rfl, rfl, fun batch => ?_⟩
  · rw [prefix_entries] at there
    obtain ⟨further, later, there⟩ := filter_getElem? there
    have enough := (hashLayers_iff.mp hashed).1 further entry there
    have fewer : rowsNeeded (headsAt full.headCount full.firstPrime [] index)
        ≤ rowsNeeded (headsAt full.headCount full.firstPrime [] further) := rowsNeeded_headsAt later
    exact le_trans (by exact_mod_cast fewer) enough
  · rw [selectedOf_eq (prefix_listed full numLayers), selectedOf_beginning, heads, ← same]
    rfl
  · rw [heads, layerIds, ids]
    unfold listedHeads
    rw [length_map, length_map]
  · refine buildHashMultipliers_iff.mpr ⟨some_, fun layerId mem => ?_, multipliers⟩
    exact (of_decide_eq_true (mem_filter.mp mem).2).1
  · have each : ∀ row, forwardRow { hash with
        layers := keptRows numLayers full.modelLayers hash.layers
        multipliers := keptRows numLayers full.modelLayers hash.multipliers } row
          = (hash.forwardRow row).map fun indices => indices.map (keptRows numLayers full.modelLayers) := by
      intro row
      show (hash.tokenIds row).bind _ = Option.map _ ((hash.tokenIds row).bind _)
      cases hash.tokenIds row with
      | none => rfl
      | some tokens =>
        show (if hash.maxNgram < 2 then none else _) = Option.map _ (if hash.maxNgram < 2 then none else _)
        by_cases short : hash.maxNgram < 2
        · rw [if_pos short, if_pos short]
          rfl
        · rw [if_neg short, if_neg short, Option.map_some, map_map]
          refine congrArg some (map_congr_left fun index _ => ?_)
          exact (windows _).symm
    unfold forward
    rw [funext each, mapM_map]

/-- **Rows of a prefix.** The layers of a prefix keep their primes, their offsets, their multipliers and their rows of
every input exactly if there are no n-grams at all, or no layer that is dropped is listed before one that is kept. -/
theorem prefix_rows (accepted : full.Accepted) (prefixed : prefixConfig full numLayers = .ok values)
    (built : build full full.modelLayers tokenMap generator = .ok hash) :
    Keeps full values numLayers tokenMap generator hash
      ↔ full.engramMaxNgramSize ≤ 1 ∨ KeptFirst numLayers full.engramLayerIds := by
  obtain ⟨within, rfl⟩ := prefixConfig_ok prefixed
  have many : 0 < full.engramNHeads := accepted.positive (show ("engram_n_heads", _) ∈ full.positives by
    simp [positives])
  rw [← accepted.listed]
  by_cases few : full.engramMaxNgramSize ≤ 1
  · have none_ : full.headCount = 0 := by
      exact Int.toNat_of_nonpos (mul_nonpos_of_nonpos_of_nonneg (by omega) many.le)
    refine ⟨fun _ => .inl few, fun _ => ?_⟩
    by_cases some_ : (prefixValues full numLayers).modelLayers = []
    · exact .inl some_
    · refine .inr (prefix_built accepted within built ?_ some_)
      rw [none_]
      exact kept_no_heads
  · have some_ : 0 < full.headCount := by
      exact Int.lt_toNat.mpr (mul_pos (by omega) many)
    have alike : listedHeads full.headCount full.firstPrime [] (keptIn numLayers full.entries 0)
        = listedHeads full.headCount full.firstPrime [] (keptOf numLayers full.entries 0)
        ↔ KeptFirst numLayers (full.entries.map fst) := kept_heads some_
    rw [or_iff_right few, ← alike]
    constructor
    · rintro (empty | ⟨hashed, made, keeps⟩)
      · rw [prefix_layers, map_eq_nil_iff] at empty
        have gone : full.entries.filter (fun entry => Kept numLayers entry.1) = [] := by
          rw [← keptIn_entries, empty, map_nil]
        have none_ : keptOf numLayers full.entries 0 = [] := by
          rw [← map_eq_nil_iff, keptOf_entries, gone]
        rw [empty, none_]
      · have heads := (model_layers (prefix_listed full numLayers) made).1
        rw [selectedOf_beginning] at heads
        rw [← (kept_layers accepted within built).1, ← keeps.heads, heads]
        rfl
    · intro same
      by_cases empty : (prefixValues full numLayers).modelLayers = []
      · exact .inl empty
      · exact .inr (prefix_built accepted within built same empty)

theorem two_layers_kept : Keeps (fourLayers [1, 3]) (prefixValues (fourLayers [1, 3]) 2) 2 none recorded twoLayers :=
  (prefix_rows (show (fourLayers [1, 3]).Accepted from rfl)
    (show prefixConfig (fourLayers [1, 3]) 2 = .ok (prefixValues (fourLayers [1, 3]) 2) from rfl) twoLayers_built).mpr
      (.inr (by decide))

/-! ### A layer that is dropped and listed first -/

/-- The hash of two layers, the third one first. -/
def thirdFirst : NgramHash where
  maxNgram := 3
  nHeads := 1
  padId := 0
  tokenMap := (range 32).map fun (id : ℕ) => (id : ℤ)
  layers := [[⟨31, 0⟩, ⟨37, 31⟩], [⟨41, 0⟩, ⟨43, 41⟩]]
  multipliers := [[85240722207167499, 252868047889091175, 33684873675973757],
    [237300864419207287, 14987281307456977, 111353620295905115]]

def firstAlone : NgramHash where
  maxNgram := 3
  nHeads := 1
  padId := 0
  tokenMap := (range 32).map fun (id : ℕ) => (id : ℤ)
  layers := [[⟨31, 0⟩, ⟨37, 31⟩]]
  multipliers := [[237300864419207287, 14987281307456977, 111353620295905115]]

theorem thirdFirst_built : build (fourLayers [3, 1]) (fourLayers [3, 1]).modelLayers none recorded
    = .ok thirdFirst := by
  have heads := both_heads 3 1
  unfold build
  rw [show hashLayers (fourLayers [3, 1]).headCount (fourLayers [3, 1]).firstPrime (fourLayers [3, 1]).modelLayers
    (fourLayers [3, 1]).entries [] = _ from heads]
  rfl

theorem firstAlone_built : build (prefixValues (fourLayers [3, 1]) 2)
    (prefixValues (fourLayers [3, 1]) 2).modelLayers none recorded = .ok firstAlone := by
  have heads : hashLayers 2 30 [1] [(1, 100)] [] = .ok [[⟨31, 0⟩, ⟨37, 31⟩]] := by
    simp only [hashLayers, first_heads, mem_cons, true_or, if_true]
    rfl
  unfold build
  rw [show hashLayers (prefixValues (fourLayers [3, 1]) 2).headCount (prefixValues (fourLayers [3, 1]) 2).firstPrime
    (prefixValues (fourLayers [3, 1]) 2).modelLayers (prefixValues (fourLayers [3, 1]) 2).entries [] = _ from heads]
  rfl

/-- **Layer 3 is listed before layer 1, and the prefix drops it.** The prefix reads other rows for layer 1. -/
theorem dropped_layer_first : (fourLayers [3, 1]).Accepted
    ∧ prefixConfig (fourLayers [3, 1]) 2 = .ok (prefixValues (fourLayers [3, 1]) 2)
    ∧ build (fourLayers [3, 1]) (fourLayers [3, 1]).modelLayers none recorded = .ok thirdFirst
    ∧ build (prefixValues (fourLayers [3, 1]) 2) (prefixValues (fourLayers [3, 1]) 2).modelLayers none recorded
      = .ok firstAlone
    ∧ (thirdFirst.forward [[⟨5, true, 0⟩]]).map (fun outputs => outputs.map fun indices =>
        indices.map (keptRows 2 (fourLayers [3, 1]).modelLayers)) = some [[[[35, 81]]]]
    ∧ firstAlone.forward [[⟨5, true, 0⟩]] = some [[[[0, 57]]]]
    ∧ ¬ Keeps (fourLayers [3, 1]) (prefixValues (fourLayers [3, 1]) 2) 2 none recorded thirdFirst := by
  refine ⟨rfl, rfl, thirdFirst_built, firstAlone_built, by decide, by decide, ?_⟩
  rintro (none_ | ⟨hashed, made, keeps⟩)
  · exact absurd none_ (by decide)
  · rw [firstAlone_built] at made
    cases made
    exact absurd keeps.heads (by decide)

end Models

end TinyDSV41.Engram.Hashing
