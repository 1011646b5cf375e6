/-
**Groups of tokens that are compressed, in packed rows.**

* `Packed` — rows of sequences, one after the other, with padding on the right.
* `completeAt`, `startOf`, `groupIds` — which tokens begin a complete group, where the groups of a row are, and of
  which sequences they are.
* `Compressor.latents` — the pooled tokens of the groups.
* `Begins` — where the sequence of a token begins.
* `groups_split` — the groups of a row, those of one sequence in their place.
* `count_groups` — there are no more complete groups than fit into the row.
-/

import TinyDSV41.Lib.Scatter
import TinyDSV41.Model.ContextParallel
import TinyDSV41.Qwen.Model

set_option linter.unusedSectionVars false

namespace TinyDSV41.Attention

open List Lib
open Model.ContextParallel (Batch valueAt)
open Qwen (Vec linear viewHeads)

variable {rows : ℕ}

/-! ### The compressor -/

structure Functions (F : Type) where
  exp : F → F
  rsqrt : F → F
  cos : F → F
  sin : F → F

/-- What the layers read of `DeepSeekV41Config`, as it is validated: a head has `indexPlainDim` dimensions that are not
rotated and `ropePairs` pairs that are. -/
structure Config where
  hiddenSize : ℕ
  headDim : ℕ
  qLoraRank : ℕ
  ropePairs : ℕ
  compressRatios : List ℕ
  kvSourceLayerIds : List ℕ
  indexSourceLayerIds : List ℕ
  candidateSourceLayerId : ℤ
  candidateTopkBlocks : ℕ
  candidateBlockSize : ℕ
  indexNHeads : ℕ
  indexPlainDim : ℕ
  indexTopk : ℕ
  blocked : 0 < candidateBlockSize
  kvSources : ∀ layer ∈ kvSourceLayerIds, 0 < compressRatios.getD layer 0
  indexSources : ∀ layer ∈ indexSourceLayerIds, 0 < compressRatios.getD layer 0 ∧ ∃ source ∈ kvSourceLayerIds, source ≤ layer
  candidateSource : 0 ≤ candidateSourceLayerId → ∃ layer ∈ indexSourceLayerIds, (layer : ℤ) = candidateSourceLayerId

namespace Config

variable (config : Config)

def ratio (layer : ℕ) : ℕ := config.compressRatios.getD layer 0

def indexHeadDim : ℕ := config.indexPlainDim + config.ropePairs * 2

end Config

def position (batch : Batch rows) (token : ℕ) (row : Fin rows) : ℤ := valueAt 0 batch.positions token row

/-- `complete`: whether a group of live tokens of one sequence begins at a token. -/
def completeAt (batch : Batch rows) (row : Fin rows) (ratio token : ℕ) : Bool :=
  let length := batch.inputIds.length
  let endIndex := token + ratio - 1
  let safeEnd := min endIndex (length - 1)
  batch.live token row && position batch token row % ratio == 0 && decide (endIndex < length)
    && (batch.live safeEnd row && batch.sequence token row == batch.sequence safeEnd row)

/-- `group_counts` -/
def groupCount (batch : Batch rows) (row : Fin rows) (ratio : ℕ) : ℕ :=
  countBelow (completeAt batch row ratio) batch.inputIds.length

/-- `starts = order[:, :max_groups]` -/
def startOf (batch : Batch rows) (row : Fin rows) (ratio group : ℕ) : ℕ :=
  (compact (completeAt batch row ratio) batch.inputIds.length).getD group 0

/-- `valid` -/
def groupValid (batch : Batch rows) (row : Fin rows) (ratio group : ℕ) : Bool := decide (group < groupCount batch row ratio)

/-- `group_positions` -/
def groupPosition (batch : Batch rows) (row : Fin rows) (ratio group : ℕ) : ℤ :=
  if groupValid batch row ratio group = true then position batch (startOf batch row ratio group) row else 0

/-- `group_sequence_ids` -/
def groupId (batch : Batch rows) (row : Fin rows) (ratio group : ℕ) : ℤ :=
  if groupValid batch row ratio group = true then batch.sequence (startOf batch row ratio group) row else -1

/-- `group_sequence_ids` of a row. -/
def groupIds (batch : Batch rows) (row : Fin rows) (ratio : ℕ) : List ℤ :=
  (range (batch.inputIds.length / ratio)).map (groupId batch row ratio)

variable {F : Type} [Field F] {config : Config}

/-- `RMSNorm.forward` of a row. -/
def rmsNorm {size : ℕ} (functions : Functions F) (weight : Vec F size) (eps : F) (x : Vec F size) : Vec F size :=
  fun place => x place * functions.rsqrt ((∑ column, x column * x column) / size + eps) * weight place

/-- The weights of `Compressor`. There is a gate if more than one token is pooled. -/
structure Compressor (F : Type) (config : Config) where
  kvProj : Fin config.headDim → Vec F config.hiddenSize
  gateProj : Fin config.headDim → Vec F config.hiddenSize
  norm : Vec F config.headDim
  rmsNormEps : F

namespace Compressor

variable (functions : Functions F) (compressor : Compressor F config)

/-- `gathered_gate.softmax(dim=2)` at a place. -/
def softmax {size : ℕ} (gates : Fin size → F) (token : Fin size) : F :=
  functions.exp (gates token) / ∑ other, functions.exp (gates other)

def pooled (ratio : ℕ) (x : ℕ → Vec F config.hiddenSize) : Vec F config.headDim :=
  if ratio ≤ 1 then linear compressor.kvProj (x 0)
  else fun place => ∑ token : Fin ratio, linear compressor.kvProj (x token) place
    * softmax functions (fun other : Fin ratio => linear compressor.gateProj (x other) place) token

/-- The latent of a group of a row: the tokens are `starts.unsqueeze(-1) + torch.arange(ratio)`. -/
def latentAt (batch : Batch rows) (row : Fin rows) (ratio : ℕ) (x : ℕ → Vec F config.hiddenSize) (group : ℕ) :
    Vec F config.headDim :=
  rmsNorm functions compressor.norm compressor.rmsNormEps (if groupValid batch row ratio group = true then
      compressor.pooled functions ratio fun token => x (startOf batch row ratio group + token)
    else fun _ => 0)

/-- The latents of `Compressor.forward`, which are none where no group fits. -/
def latents (batch : Batch rows) (ratio : ℕ) (x : Fin rows → ℕ → Vec F config.hiddenSize) :
    Option (Fin rows → List (Vec F config.headDim)) :=
  let maxGroups := batch.inputIds.length / ratio
  if maxGroups = 0 then none
  else some fun row => (range maxGroups).map (compressor.latentAt functions batch row ratio (x row))

end Compressor

/-! ### Packed rows -/

/-- Rows of live tokens with padding after them, the ids of their sequences from zero on and not decreasing. Ids are
64-bit integers. -/
structure Packed (batch : Batch rows) : Prop where
  padded : ∀ row token later, token ≤ later → batch.live later row = true → batch.live token row = true
  increasing : ∀ row token later, token ≤ later → batch.live later row = true →
    batch.sequence token row ≤ batch.sequence later row
  nonneg : ∀ row token, batch.live token row = true → 0 ≤ batch.sequence token row
  bounded : ∀ row token, batch.sequence token row < 2 ^ 63

/-- The sequence of a token begins at a token. -/
structure Begins (batch : Batch rows) (row : Fin rows) (first token : ℕ) : Prop where
  le : first ≤ token
  same : ∀ other, first ≤ other → other ≤ token → batch.sequence other row = batch.sequence token row
  before : ∀ other < first, batch.sequence other row < batch.sequence token row

variable {batch : Batch rows} {row : Fin rows} {first token ratio : ℕ}

theorem live_inside (live : batch.live token row = true) : token < batch.inputIds.length := by
  by_contra beyond
  unfold Batch.live valueAt at live
  rw [getElem?_eq_none (by rw [batch.maskLength]; omega)] at live
  cases live

theorem lastStart_zero (batch : Batch rows) (row : Fin rows) : batch.lastStart 0 row = 0 := by
  show max 0 (if batch.starts 0 row = true then 0 else 0) = 0
  rw [ite_self, max_self]

theorem lastStart_le (batch : Batch rows) (row : Fin rows) (token : ℕ) : batch.lastStart token row ≤ token := by
  induction token with
  | zero => exact (lastStart_zero batch row).le
  | succ token known =>
    unfold Batch.lastStart at *
    rw [range_succ, foldl_append]
    refine max_le (known.trans (Nat.le_succ token)) ?_
    split_ifs
    · exact Nat.le_refl _
    · exact Nat.zero_le _

theorem lastStart_succ (batch : Batch rows) (row : Fin rows) (token : ℕ) :
    batch.lastStart (token + 1) row = if batch.starts (token + 1) row = true then token + 1 else batch.lastStart token row := by
  have before := lastStart_le batch row token
  unfold Batch.lastStart at *
  rw [range_succ (n := token + 1), foldl_append]
  show max _ (if batch.starts (token + 1) row = true then token + 1 else 0) = _
  by_cases begins : batch.starts (token + 1) row = true
  · rw [if_pos begins, if_pos begins, max_eq_right (by omega)]
  · rw [if_neg begins, if_neg begins, Nat.max_zero]

/-- **The last start is where the sequence of a live token begins.** -/
theorem lastStart_begins (packed : Packed batch) (live : batch.live token row = true) :
    Begins batch row (batch.lastStart token row) token := by
  induction token with
  | zero =>
    rw [lastStart_zero]
    exact ⟨Nat.le_refl 0, fun other _ within => by rw [Nat.le_zero.mp within], fun other below => absurd below (Nat.not_lt_zero other)⟩
  | succ token known =>
    have earlier := packed.padded row token (token + 1) (Nat.le_succ token) live
    have start := known earlier
    have order := packed.increasing row token (token + 1) (Nat.le_succ token) live
    have here : batch.starts (token + 1) row = true ↔ batch.sequence (token + 1) row ≠ batch.sequence token row := by
      unfold Batch.starts
      rw [live, Bool.true_and, if_neg (Nat.succ_ne_zero token), Nat.add_sub_cancel, bne_iff_ne]
    rw [lastStart_succ]
    by_cases begins : batch.starts (token + 1) row = true
    · -- Every id before is at most the one of the previous token, which is another one.
      have less : batch.sequence token row < batch.sequence (token + 1) row :=
        lt_of_le_of_ne order (here.mp begins).symm
      rw [if_pos begins]
      exact ⟨Nat.le_refl _, fun other low high => by rw [le_antisymm high low],
        fun other below => (packed.increasing row other token (Nat.le_of_lt_succ below) earlier).trans_lt less⟩
    · have same : batch.sequence (token + 1) row = batch.sequence token row := by
        by_contra differs
        exact begins (here.mpr differs)
      rw [if_neg begins]
      refine ⟨start.le.trans (Nat.le_succ token), fun other low high => ?_, fun other below => ?_⟩
      · rcases Nat.le_succ_iff.mp high with within | rfl
        · exact (start.same other low within).trans same.symm
        · rfl
      · rw [same]
        exact start.before other below

variable {other : ℕ}

namespace Begins

theorem unique {later : ℕ} (one : Begins batch row first token) (two : Begins batch row other later)
    (same : batch.sequence token row = batch.sequence later row) : first = other := by
  rcases lt_trichotomy first other with less | equal | more
  · have below := two.before first less
    rw [one.same first (Nat.le_refl first) one.le, same] at below
    exact absurd below (lt_irrefl _)
  · exact equal
  · have below := one.before other more
    rw [two.same other (Nat.le_refl other) two.le, same] at below
    exact absurd below (lt_irrefl _)

end Begins

theorem position_eq (live : batch.live token row = true) :
    position batch token row = ((token - batch.lastStart token row : ℕ) : ℤ) := by
  have inside := live_inside live
  have below := lastStart_le batch row token
  unfold position valueAt Batch.positions
  rw [getElem?_map, getElem?_range inside]
  show (if batch.live token row = true then (token : ℤ) - batch.lastStart token row else 0) = _
  rw [if_pos live]
  omega

/-- **A token begins a complete group if the last token of the group is a live one of its sequence.** -/
theorem completeAt_iff : completeAt batch row ratio token = true ↔
    batch.live token row = true ∧ (token - batch.lastStart token row) % ratio = 0
      ∧ batch.live (token + ratio - 1) row = true
      ∧ batch.sequence token row = batch.sequence (token + ratio - 1) row := by
  unfold completeAt
  simp only [Bool.and_eq_true, beq_iff_eq, decide_eq_true_eq]
  constructor
  · rintro ⟨⟨⟨live, divides⟩, inside⟩, final, same⟩
    rw [min_eq_left (by omega)] at final same
    rw [position_eq live] at divides
    exact ⟨live, by exact_mod_cast divides, final, same⟩
  · rintro ⟨live, divides, final, same⟩
    have inside := live_inside final
    rw [min_eq_left (by omega), position_eq live]
    exact ⟨⟨⟨live, by exact_mod_cast divides⟩, inside⟩, final, same⟩

/-! ### Groups of a row -/

/-- How many groups of its sequence end up to a token. -/
def visibleGroups (batch : Batch rows) (row : Fin rows) (ratio token : ℕ) : ℕ :=
  (token - batch.lastStart token row + 1) / ratio

def firstGroup (batch : Batch rows) (row : Fin rows) (ratio token : ℕ) : ℕ :=
  countBelow (completeAt batch row ratio) (batch.lastStart token row)

section Groups

variable (packed : Packed batch) (positive : 0 < ratio)
include packed

theorem lastStart_same (live : batch.live token row = true) (there : batch.live other row = true)
    (same : batch.sequence token row = batch.sequence other row) :
    batch.lastStart token row = batch.lastStart other row :=
  (lastStart_begins packed live).unique (lastStart_begins packed there) same

include positive

theorem complete_apart (one : completeAt batch row ratio token = true)
    (two : completeAt batch row ratio other = true) (less : token < other) : token + ratio ≤ other := by
  obtain ⟨live, divides, final, same⟩ := completeAt_iff.mp one
  obtain ⟨there, further, -, -⟩ := completeAt_iff.mp two
  by_contra near
  have low := packed.increasing row token other less.le there
  have high := packed.increasing row other (token + ratio - 1) (by omega) final
  rw [← same] at high
  have start := lastStart_same packed live there (le_antisymm low high)
  have first := lastStart_le batch row token
  rw [← start, show other - batch.lastStart token row = token - batch.lastStart token row + (other - token) by omega,
    Nat.add_mod, divides, Nat.zero_add, Nat.mod_mod, Nat.mod_eq_of_lt (by omega)] at further
  omega

/-- **There are no more complete groups than fit into the row.** -/
theorem count_groups (row : Fin rows) : groupCount batch row ratio ≤ batch.inputIds.length / ratio := by
  rw [Nat.le_div_iff_mul_le positive]
  refine length_spaced ?_ fun group mem => ?_
  · refine (pairwise_lt_range.filter _).imp_of_mem fun {one two} first second less => ?_
    exact complete_apart packed positive (mem_filter.mp first).2 (mem_filter.mp second).2 less
  · obtain ⟨-, -, final, -⟩ := completeAt_iff.mp (mem_filter.mp mem).2
    have := live_inside final
    omega

section

variable (live : batch.live token row = true)
include live

theorem complete_offset {offset : ℕ} (within : offset < visibleGroups batch row ratio token * ratio) :
    completeAt batch row ratio (batch.lastStart token row + offset) = decide (offset % ratio = 0) := by
  have begins := lastStart_begins packed live
  have below := begins.le
  have span : visibleGroups batch row ratio token * ratio ≤ token - batch.lastStart token row + 1 :=
    Nat.div_mul_le_self _ _
  have inside : batch.lastStart token row + offset ≤ token := by omega
  have here := packed.padded row _ token inside live
  have same := begins.same _ (Nat.le_add_right _ offset) inside
  have start := lastStart_same packed here live same
  rw [Bool.eq_iff_iff, completeAt_iff, decide_eq_true_eq, start, Nat.add_sub_cancel_left]
  refine ⟨fun complete => complete.2.1, fun divides => ⟨here, divides, ?_⟩⟩
  have last : batch.lastStart token row + offset + ratio - 1 ≤ token := by
    obtain ⟨group, rfl⟩ := Nat.dvd_of_mod_eq_zero divides
    have less : group < visibleGroups batch row ratio token := by
      rw [Nat.mul_comm] at within
      exact lt_of_mul_lt_mul_right within (Nat.zero_le ratio)
    have more : (group + 1) * ratio ≤ visibleGroups batch row ratio token * ratio := Nat.mul_le_mul_right ratio less
    rw [Nat.succ_mul, Nat.mul_comm] at more
    omega
  exact ⟨packed.padded row _ token last live, same.trans (begins.same _ (by omega) last).symm⟩

/-- **The groups of a row are those before a sequence, those of the sequence up to a token, and later ones.** -/
theorem groups_split : ∃ rest, (range batch.inputIds.length).filter (completeAt batch row ratio)
      = (range (batch.lastStart token row)).filter (completeAt batch row ratio)
        ++ ((range (visibleGroups batch row ratio token)).map (fun group => batch.lastStart token row + group * ratio)
          ++ rest)
      ∧ ∀ start ∈ rest, batch.lastStart token row ≤ start := by
  have inside := live_inside live
  have below := lastStart_le batch row token
  have span : visibleGroups batch row ratio token * ratio ≤ token - batch.lastStart token row + 1 :=
    Nat.div_mul_le_self _ _
  obtain ⟨more, length⟩ := Nat.exists_eq_add_of_le
    (show batch.lastStart token row + visibleGroups batch row ratio token * ratio ≤ batch.inputIds.length by omega)
  have own : ((range (visibleGroups batch row ratio token * ratio)).map (batch.lastStart token row + ·)).filter
      (completeAt batch row ratio)
        = (range (visibleGroups batch row ratio token)).map (fun group => batch.lastStart token row + group * ratio) := by
    have multiples : (range (visibleGroups batch row ratio token * ratio)).filter
        (completeAt batch row ratio ∘ (batch.lastStart token row + ·))
          = (range (visibleGroups batch row ratio token)).map (· * ratio) := by
      rw [← filter_multiples positive]
      exact filter_congr fun offset mem => complete_offset packed positive live (mem_range.mp mem)
    rw [filter_map, multiples, map_map]
    rfl
  rw [length, Nat.add_assoc, range_add, filter_append, range_add, map_append, filter_append, own]
  refine ⟨_, rfl, fun start mem => ?_⟩
  obtain ⟨offset, -, rfl⟩ := mem_map.mp (mem_filter.mp mem).1
  exact Nat.le_add_right _ _

theorem firstGroup_add_le :
    firstGroup batch row ratio token + visibleGroups batch row ratio token ≤ groupCount batch row ratio := by
  obtain ⟨rest, split, -⟩ := groups_split packed positive live
  unfold groupCount countBelow firstGroup
  rw [split, length_append, length_append, length_map, length_range, ← Nat.add_assoc]
  exact Nat.le_add_right _ _

end

variable {group : ℕ}

omit packed positive in
theorem startOf_eq (valid : group < groupCount batch row ratio) :
    ((range batch.inputIds.length).filter (completeAt batch row ratio))[group]? = some (startOf batch row ratio group) := by
  unfold startOf
  rw [getD_eq_getElem?_getD, compact_getElem? valid, getElem?_eq_getElem valid]
  rfl

omit packed positive in
theorem groupId_valid (valid : group < groupCount batch row ratio) :
    groupId batch row ratio group = batch.sequence (startOf batch row ratio group) row := by
  unfold groupId groupValid
  rw [decide_eq_true valid, if_pos rfl]

omit packed positive in
theorem groupId_invalid (beyond : groupCount batch row ratio ≤ group) :
    groupId batch row ratio group = -1 := by
  unfold groupId groupValid
  rw [decide_eq_false (not_lt.mpr beyond)]
  rfl

omit packed positive in
theorem startOf_complete (valid : group < groupCount batch row ratio) :
    completeAt batch row ratio (startOf batch row ratio group) = true :=
  (mem_filter.mp (mem_of_getElem? (startOf_eq valid))).2

section

variable (live : batch.live token row = true)
include live

/-- **The groups of a sequence up to a token are one after the other.** -/
theorem startOf_own (visible : group < visibleGroups batch row ratio token) :
    firstGroup batch row ratio token + group < groupCount batch row ratio
      ∧ startOf batch row ratio (firstGroup batch row ratio token + group) = batch.lastStart token row + group * ratio := by
  obtain ⟨rest, split, -⟩ := groups_split packed positive live
  have found : ((range batch.inputIds.length).filter (completeAt batch row ratio))[firstGroup batch row ratio token
      + group]? = some (batch.lastStart token row + group * ratio) := by
    have beyond : ((range (batch.lastStart token row)).filter (completeAt batch row ratio)).length
        ≤ firstGroup batch row ratio token + group := Nat.le_add_right _ _
    rw [split, getElem?_append_right beyond]
    show (_ ++ rest)[firstGroup batch row ratio token + group - firstGroup batch row ratio token]? = _
    rw [Nat.add_sub_cancel_left, getElem?_append_left (by rw [length_map, length_range]; exact visible),
      getElem?_map, getElem?_range visible]
    rfl
  have valid : firstGroup batch row ratio token + group < groupCount batch row ratio :=
    (List.getElem?_eq_some_iff.mp found).choose
  exact ⟨valid, Option.some.inj ((startOf_eq valid).symm.trans found)⟩

theorem groupId_before (before : group < firstGroup batch row ratio token) :
    group < groupCount batch row ratio ∧ 0 ≤ groupId batch row ratio group
      ∧ groupId batch row ratio group < batch.sequence token row := by
  obtain ⟨rest, split, -⟩ := groups_split packed positive live
  have valid : group < groupCount batch row ratio :=
    before.trans_le ((Nat.le_add_right _ _).trans (firstGroup_add_le packed positive live))
  have found := startOf_eq valid
  rw [split, getElem?_append_left before] at found
  obtain ⟨inside, complete⟩ := mem_filter.mp (mem_of_getElem? found)
  rw [groupId_valid valid]
  exact ⟨valid, packed.nonneg row _ (completeAt_iff.mp complete).1,
    (lastStart_begins packed live).before _ (mem_range.mp inside)⟩

theorem groupId_after (after : firstGroup batch row ratio token ≤ group)
    (valid : group < groupCount batch row ratio) :
    batch.sequence token row ≤ groupId batch row ratio group := by
  obtain ⟨rest, split, later⟩ := groups_split packed positive live
  have begins := lastStart_begins packed live
  have found := startOf_eq valid
  have start : batch.lastStart token row ≤ startOf batch row ratio group := by
    rw [split, getElem?_append_right after] at found
    rcases mem_append.mp (mem_of_getElem? found) with own | other
    · obtain ⟨offset, -, same⟩ := mem_map.mp own
      rw [← same]
      exact Nat.le_add_right _ _
    · exact later _ other
  have complete := completeAt_iff.mp (startOf_complete valid)
  rw [groupId_valid valid, ← begins.same _ (Nat.le_refl _) begins.le]
  exact packed.increasing row _ _ start complete.1

end

theorem startOf_inj {one two : ℕ} (first : one < groupCount batch row ratio) (second : two < groupCount batch row ratio)
    (same : startOf batch row ratio one = startOf batch row ratio two) : one = two := by
  have distinct : ((range batch.inputIds.length).filter (completeAt batch row ratio)).Nodup :=
    nodup_range.filter _
  have found := startOf_eq second
  rw [← same, ← startOf_eq first] at found
  exact (getElem?_inj first distinct).mp found.symm

/-- **The groups of a sequence that end up to a token are the visible ones.** -/
theorem visible_iff (live : batch.live token row = true) :
    (group < groupCount batch row ratio ∧ groupId batch row ratio group = batch.sequence token row
        ∧ startOf batch row ratio group + ratio ≤ token + 1)
      ↔ ∃ offset < visibleGroups batch row ratio token, group = firstGroup batch row ratio token + offset := by
  have below := lastStart_le batch row token
  constructor
  · rintro ⟨valid, same, ends⟩
    obtain ⟨there, divides, -, -⟩ := completeAt_iff.mp (startOf_complete valid)
    rw [groupId_valid valid] at same
    have start := lastStart_same packed there live same
    have after := lastStart_le batch row (startOf batch row ratio group)
    obtain ⟨offset, multiple⟩ := Nat.dvd_of_mod_eq_zero divides
    have inside : offset < visibleGroups batch row ratio token := by
      refine (Nat.le_div_iff_mul_le positive).mpr ?_
      rw [Nat.succ_mul, Nat.mul_comm]
      omega
    obtain ⟨known, begins⟩ := startOf_own packed positive live inside
    refine ⟨offset, inside, startOf_inj packed positive valid known ?_⟩
    rw [begins, Nat.mul_comm]
    omega
  · rintro ⟨offset, inside, rfl⟩
    obtain ⟨valid, start⟩ := startOf_own packed positive live inside
    have begins := lastStart_begins packed live
    have ends : (offset + 1) * ratio ≤ token - batch.lastStart token row + 1 := (Nat.le_div_iff_mul_le positive).mp inside
    rw [Nat.succ_mul] at ends
    rw [groupId_valid valid, start]
    exact ⟨valid, begins.same _ (Nat.le_add_right _ _) (by omega), by omega⟩

end Groups

end TinyDSV41.Attention
