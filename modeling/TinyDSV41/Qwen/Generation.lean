/-
**Groups of samples, with a cache and without.**

* `generateGroup` — categorical samples of a model, their log probabilities and their rewards.
* `generateCachedQwenGroup` — the same with a fresh cache for each sample.
* `cachedResponseLogProbs` — the log probabilities of a response, computed again.
* `sampleTokens_cached` — a sample with a cache is the sample without one.
* **`cached_decoding`** — the cached path returns the native hidden states, groups and log probabilities.
-/

import TinyDSV41.Qwen.RequestCache
import Mathlib.Analysis.SpecialFunctions.Pow.Real

set_option linter.unusedSectionVars false

namespace TinyDSV41.Qwen

open List Lib RequestCache

/-- `torch.multinomial` of one draw with a generator, and `torch.isfinite`. -/
structure Sampling (F Generator : Type) where
  multinomial : {size : ℕ} → Vec F size → Generator → Except String (Fin size × Generator)
  isFinite : F → Bool

/-- `validate_token_ids` -/
def validateTokenIds (value : List ℤ) (name : String) (allowEmpty : Bool) : Except String (List ℤ) := do
  require (value ≠ [] ∨ allowEmpty = true) s!"{name} must not be empty"
  require (∀ token ∈ value, 0 ≤ token) s!"{name} must contain only nonnegative integer token IDs"
  .ok value

/-- A `PromptRecord`: its prompt was validated. -/
structure PromptRecord (Metadata : Type) where
  promptIds : List ℤ
  targetIds : Option (List ℤ)
  metadata : Metadata
  validated : validateTokenIds promptIds "prompt_ids" false = .ok promptIds

inductive FinishReason where
  | eos
  | stop
  | length
  deriving DecidableEq

structure Sample (F : Type) where
  promptIds : List ℤ
  responseIds : List ℤ
  behaviorLogProbs : List F
  reward : F
  policyVersion : ℤ
  finishReason : FinishReason
  stopTokenCount : ℕ
  rawReward : F

structure RolloutGroup (F : Type) where
  samples : List (Sample F)
  groupId : ℤ
  policyVersion : ℤ

/-- A reward function. Some request the content only. -/
structure RewardFn (F Metadata : Type) where
  score : PromptRecord Metadata → List ℤ → F
  stripStopTokens : Bool

/-- The arguments of `generate_group`. A single `eos_token_id` is a list of one. -/
structure Options (F Metadata : Type) where
  groupSize : ℤ
  maxNewTokens : ℤ
  temperature : F
  eosTokenIds : Option (List ℤ)
  policyVersion : ℤ
  groupId : ℤ
  rewardFn : RewardFn F Metadata
  stopTokenSequences : List (List ℤ)
  truncatedReward : Option F

variable {F Generator Metadata State : Type} [Field F] [LinearOrder F] {config : Config}

/-- `Sample.__post_init__` -/
def Sample.validate (sampling : Sampling F Generator) (sample : Sample F) : Except String Unit := do
  let _ ← validateTokenIds sample.promptIds "prompt_ids" false
  let _ ← validateTokenIds sample.responseIds "response_ids" false
  require (sample.responseIds.length = sample.behaviorLogProbs.length)
    "each response token requires one behavior log probability"
  require (∀ value ∈ sample.behaviorLogProbs, sampling.isFinite value = true ∧ value ≤ 1 / 1000000)
    "behavior log probabilities must be finite and nonpositive"
  require (sampling.isFinite sample.reward = true) "reward must be finite"
  require (sampling.isFinite sample.rawReward = true) "raw reward must be finite"
  require (sample.stopTokenCount ≤ sample.responseIds.length) "invalid stop_token_count"
  require (0 ≤ sample.policyVersion) "policy_version must be a nonnegative integer"

/-- `RolloutGroup.__post_init__` -/
def RolloutGroup.validate (group : RolloutGroup F) : Except String Unit := do
  require (group.samples ≠ []) "a rollout group must not be empty"
  require (0 ≤ group.groupId) "group_id must be a nonnegative integer"
  require (0 ≤ group.policyVersion) "policy_version must be a nonnegative integer"
  require (∀ sample ∈ group.samples, sample.policyVersion = group.policyVersion)
    "all group samples must have the group policy_version"
  require (∀ sample ∈ group.samples, some sample.promptIds = group.samples.head?.map Sample.promptIds)
    "all group samples must have the same prompt"

/-- `torch.log_softmax(logits / temperature, dim=-1)` -/
def logSoftmax {size : ℕ} (torch : Torch F) (temperature : F) (logits : Vec F size) : Vec F size :=
  fun place => logits place / temperature - torch.log (∑ other, torch.exp (logits other / temperature))

/-- The checks of `generate_group`: the end tokens and the stop sequences, the longest first. -/
def Options.validate (sampling : Sampling F Generator) (options : Options F Metadata) :
    Except String (List ℤ × List (List ℤ)) := do
  require (sampling.isFinite options.temperature = true ∧ 0 < options.temperature) "temperature must be finite and positive"
  require (0 < options.groupSize) "group_size must be a positive integer"
  require (0 < options.maxNewTokens) "max_new_tokens must be a positive integer"
  require (0 ≤ options.policyVersion) "policy_version must be a nonnegative integer"
  require (0 ≤ options.groupId) "group_id must be a nonnegative integer"
  let eosIds ← validateTokenIds (options.eosTokenIds.getD []) "eos_token_id" true
  let stops ← options.stopTokenSequences.mapM fun ids => validateTokenIds ids "stop_token_sequences" false
  require (∀ reward ∈ options.truncatedReward, sampling.isFinite reward = true) "truncated_reward must be finite or None"
  .ok (eosIds, stops.mergeSort fun one two => two.length ≤ one.length)

/-- The tokens of a sample, so far or complete. -/
structure Response (F : Type) where
  ids : List ℤ
  behavior : List F
  finishReason : FinishReason
  stopCount : ℕ

/-- The logits of the next token, from the tokens so far. -/
abbrev NextLogits (F : Type) (config : Config) (State : Type) :=
  State → List ℤ → Except String (Vec F config.vocabSize × State)

section Sampling

variable (torch : Torch F) (sampling : Sampling F Generator) (next : NextLogits F config State)

def drawToken {size : ℕ} (temperature : F) (stopIds : List ℤ) (logits : Vec F size) (generator : Generator) :
    Except String (ℤ × F × Generator) := do
  require (0 < size) "model next_token_logits must return [1, vocabulary_size]"
  require (∀ token ∈ stopIds, token < size) "stop token ID is outside the model vocabulary"
  let logProbs := logSoftmax torch temperature logits
  require (∀ place, sampling.isFinite (logProbs place) = true) "generation log probabilities contain non-finite values"
  let (token, generator) ← sampling.multinomial (fun place => torch.exp (logProbs place)) generator
  .ok (((token : ℕ) : ℤ), logProbs token, generator)

/-- Why a response ends with its last token, if it does. -/
def ending (eosIds : List ℤ) (stops : List (List ℤ)) (response : List ℤ) (token : ℤ) : Option (FinishReason × ℕ) :=
  match stops.find? fun ids => response.drop (response.length - ids.length) == ids with
  | some ids => some (.stop, ids.length)
  | none => if token ∈ eosIds then some (.eos, 1) else none

def sampleTokens (temperature : F) (eosIds : List ℤ) (stops : List (List ℤ)) (promptIds : List ℤ) :
    ℕ → List ℤ → List F → State → Generator → Except String (Response F × State × Generator)
  | 0, response, behavior, state, generator => .ok (⟨response, behavior, .length, 0⟩, state, generator)
  | fuel + 1, response, behavior, state, generator => do
      let (logits, state) ← next state (promptIds ++ response)
      let (token, logProb, generator) ← drawToken torch sampling temperature (eosIds ++ stops.flatten) logits generator
      let response := response ++ [token]
      let behavior := behavior ++ [logProb]
      match ending eosIds stops response token with
      | some (reason, count) => .ok (⟨response, behavior, reason, count⟩, state, generator)
      | none => sampleTokens temperature eosIds stops promptIds fuel response behavior state generator

def scored (options : Options F Metadata) (record : PromptRecord Metadata) (response : Response F) :
    Except String (Sample F) := do
  let scoringIds := if response.stopCount ≠ 0 ∧ options.rewardFn.stripStopTokens = true then
      response.ids.take (response.ids.length - response.stopCount)
    else response.ids
  let rawReward := options.rewardFn.score record scoringIds
  let reward := if response.finishReason = .length then options.truncatedReward.getD rawReward else rawReward
  let sample : Sample F := ⟨record.promptIds, response.ids, response.behavior, reward, options.policyVersion,
    response.finishReason, response.stopCount, rawReward⟩
  sample.validate sampling
  .ok sample

def sampleAll (options : Options F Metadata) (record : PromptRecord Metadata) (eosIds : List ℤ) (stops : List (List ℤ)) :
    ℕ → State → Generator → Except String (List (Sample F) × State × Generator)
  | 0, state, generator => .ok ([], state, generator)
  | count + 1, state, generator => do
      let (response, state, generator) ← sampleTokens torch sampling next options.temperature eosIds stops
        record.promptIds options.maxNewTokens.toNat [] [] state generator
      let sample ← scored sampling options record response
      let (samples, state, generator) ← sampleAll options record eosIds stops count state generator
      .ok (sample :: samples, state, generator)

/-- `generate_group` of a model with a `next_token_logits` hook. -/
def generateGroup (options : Options F Metadata) (record : PromptRecord Metadata) (state : State) (generator : Generator) :
    Except String (RolloutGroup F × State × Generator) := do
  let (eosIds, stops) ← options.validate sampling
  let (samples, state, generator) ← sampleAll torch sampling next options record eosIds stops options.groupSize.toNat state
    generator
  let group : RolloutGroup F := ⟨samples, options.groupId, options.policyVersion⟩
  group.validate
  .ok (group, state, generator)

end Sampling

section Policies

variable (torch : Torch F) (sampling : Sampling F Generator) (policy : Policy F config)

/-- `torch.ones_like(tokens)` -/
def ones (inputIds : List ℤ) : Option (List Bool) := some (replicate inputIds.length true)

/-- `QwenPolicy.next_token_logits` -/
def Policy.nextTokenLogits : NextLogits F config Unit := fun _ inputIds => do
  let states ← policy.backend.forward torch inputIds (ones inputIds)
  let last ← lastRow states
  let hidden := if policy.qwenLastPositionOnly = true then [last] else states
  let logits := hidden.map (linear policy.backend.lmHead)
  let expected := if policy.qwenLastPositionOnly = true then 1 else inputIds.length
  require (logits.length = expected) "Qwen next-token logits have an invalid shape"
  let row ← lastRow logits
  .ok (row, ())

/-- `QwenCachedSampler.next_token_logits` -/
def cachedNextTokenLogits : NextLogits F config (RequestCache F config) := fun cache inputIds => do
  let (hidden, cache) ← nextHidden torch policy cache inputIds (ones inputIds)
  .ok (linear policy.backend.lmHead hidden, cache)

/-- The loop of `generate_cached_qwen_group`. -/
def sampleCached (options : Options F Metadata) (record : PromptRecord Metadata) :
    ℕ → Generator → Except String (List (Sample F) × Generator)
  | 0, generator => .ok ([], generator)
  | count + 1, generator => do
      let cache ← build policy
      let (group, _, generator) ← generateGroup torch sampling (cachedNextTokenLogits torch policy)
        { options with groupSize := 1 } record cache generator
      let (samples, generator) ← sampleCached options record count generator
      .ok (group.samples ++ samples, generator)

/-- `generate_cached_qwen_group` -/
def generateCachedQwenGroup (options : Options F Metadata) (record : PromptRecord Metadata) (generator : Generator) :
    Except String (RolloutGroup F × Generator) := do
  let (samples, generator) ← sampleCached torch sampling policy options record options.groupSize.toNat generator
  let group : RolloutGroup F := ⟨samples, options.groupId, options.policyVersion⟩
  group.validate
  .ok (group, generator)

def entryAt {size : ℕ} (row : Vec F size) (index : ℤ) : Except String F :=
  match rowAt (ofFn row) (if index < 0 then index + size else index) with
  | some value => .ok value
  | none => .error "index is out of bounds"

/-- The loop of `cached_response_log_probs`. -/
def replay (temperature : F) : RequestCache F config → List ℤ → List ℤ → Except String (List F)
  | _, _, [] => .ok []
  | cache, inputIds, token :: rest => do
      let (hidden, cache) ← nextHidden torch policy cache inputIds none
      let logits := linear policy.backend.lmHead hidden
      require (token < config.vocabSize) "response token ID is outside the model vocabulary"
      let probability ← entryAt (logSoftmax torch temperature logits) token
      let probabilities ← replay temperature cache (inputIds ++ [token]) rest
      .ok (probability :: probabilities)

/-- `cached_response_log_probs` -/
def cachedResponseLogProbs (promptIds responseIds : List ℤ) (temperature : F) : Except String (List F) := do
  let cache ← build policy
  let probabilities ← replay torch policy temperature cache promptIds responseIds
  require (probabilities ≠ []) "stack expects a non-empty TensorList"
  .ok probabilities

end Policies

/-! ### Samples with a cache -/

section Cached

variable {torch : Torch F} {sampling : Sampling F Generator} {policy : Policy F config}
  {cache after : RequestCache F config} {inputIds promptIds : List ℤ}

theorem ones_shown (inputIds : List ℤ) : AllShown inputIds.length (ones inputIds) :=
  fun _ given => (Option.some.inj given).symm

section

variable (last : policy.qwenLastPositionOnly = true)
include last

variable {logits : Vec F config.vocabSize}

theorem nextTokenLogits_iff : policy.nextTokenLogits torch () inputIds = .ok (logits, ())
      ↔ ∃ row, policy.lastHidden torch inputIds (ones inputIds) = .ok row ∧ logits = linear policy.backend.lmHead row := by
  unfold Policy.nextTokenLogits Policy.lastHidden
  simp only [last, if_true, bind_eq_ok, require_eq_ok]
  constructor
  · rintro ⟨states, found, row, end_, -, -, output, same, made⟩
    cases made
    rw [lastRow_ok] at same
    exact ⟨row, ⟨states, found, end_⟩, (Option.some.inj same).symm⟩
  · rintro ⟨row, ⟨states, found, end_⟩, rfl⟩
    exact ⟨states, found, row, end_, (), rfl, _, rfl, rfl⟩

/-- The logits with a cache are the native ones, and the cache is ready for any next token. -/
theorem cachedNextTokenLogits_native (ready : Ready torch policy cache inputIds) :
    (policy.nextTokenLogits torch () inputIds = .ok (logits, ())
        ↔ ∃ after, cachedNextTokenLogits torch policy cache inputIds = .ok (logits, after))
      ∧ ∀ after, cachedNextTokenLogits torch policy cache inputIds = .ok (logits, after) →
          ∀ token, Ready torch policy after (inputIds ++ [token]) := by
  have cached : ∀ after, cachedNextTokenLogits torch policy cache inputIds = .ok (logits, after) ↔
      ∃ row, nextHidden torch policy cache inputIds (ones inputIds) = .ok (row, after)
        ∧ logits = linear policy.backend.lmHead row := by
    intro after
    unfold cachedNextTokenLogits
    rw [bind_eq_ok]
    constructor
    · rintro ⟨⟨row, after⟩, found, same⟩
      cases same
      exact ⟨row, found, rfl⟩
    · rintro ⟨row, found, rfl⟩
      exact ⟨(row, after), found, rfl⟩
  have native : ∀ row, _ := fun row : Vec F config.hiddenSize =>
    (nextHidden_native ready (ones_shown inputIds) : (policy.lastHidden torch inputIds (ones inputIds) = .ok row ↔ _) ∧ _)
  refine ⟨?_, fun after found => ?_⟩
  · rw [nextTokenLogits_iff last]
    constructor
    · rintro ⟨row, found, same⟩
      obtain ⟨after, decoded⟩ := (native row).1.mp found
      exact ⟨after, (cached after).mpr ⟨row, decoded, same⟩⟩
    · rintro ⟨after, found⟩
      obtain ⟨row, decoded, same⟩ := (cached after).mp found
      exact ⟨row, (native row).1.mpr ⟨after, decoded⟩, same⟩
  · obtain ⟨row, decoded, -⟩ := (cached after).mp found
    exact (native row).2 after decoded

/-- **A sample with a cache is the sample without one.** -/
theorem sampleTokens_cached {temperature : F} {eosIds : List ℤ} {stops : List (List ℤ)}
    {result : Response F} {generator' : Generator} (fuel : ℕ) (response : List ℤ) (behavior : List F)
    (generator : Generator) (ready : Ready torch policy cache (promptIds ++ response)) :
    sampleTokens torch sampling (policy.nextTokenLogits torch) temperature eosIds stops promptIds fuel response behavior ()
        generator = .ok (result, (), generator')
      ↔ ∃ after, sampleTokens torch sampling (cachedNextTokenLogits torch policy) temperature eosIds stops promptIds fuel
          response behavior cache generator = .ok (result, after, generator') := by
  induction fuel generalizing cache response behavior generator with
  | zero =>
    constructor
    · intro same
      cases same
      exact ⟨cache, rfl⟩
    · rintro ⟨_, same⟩
      cases same
      rfl
  | succ fuel known =>
    have logits : ∀ output, _ := fun output : Vec F config.vocabSize => (cachedNextTokenLogits_native last ready :
      (policy.nextTokenLogits torch () (promptIds ++ response) = .ok (output, ()) ↔ _) ∧ _)
    unfold sampleTokens
    simp only [bind_eq_ok]
    constructor
    · rintro ⟨⟨output, _⟩, found, ⟨token, logProb, further⟩, drawn, same⟩
      obtain ⟨after, cached⟩ := (logits output).1.mp found
      have next := (logits output).2 after cached token
      rw [append_assoc] at next
      cases ends : ending eosIds stops (response ++ [token]) token with
      | some reason =>
        rw [ends] at same
        cases same
        exact ⟨after, (output, after), cached, (token, logProb, _), drawn, by simp only [ends]⟩
      | none =>
        rw [ends] at same
        obtain ⟨final, ran⟩ := (known _ _ _ next).mp same
        exact ⟨final, (output, after), cached, (token, logProb, further), drawn, by simp only [ends]; exact ran⟩
    · rintro ⟨final, ⟨output, after⟩, cached, ⟨token, logProb, further⟩, drawn, same⟩
      have next := (logits output).2 after cached token
      rw [append_assoc] at next
      refine ⟨(output, ()), (logits output).1.mpr ⟨after, cached⟩, (token, logProb, further), drawn, ?_⟩
      cases ends : ending eosIds stops (response ++ [token]) token with simp only [ends] at same ⊢
      | some reason =>
        cases same
        rfl
      | none =>
        exact (known _ _ _ next).mpr ⟨final, same⟩

end

/-! ### Groups with caches -/

variable {options : Options F Metadata} {record : PromptRecord Metadata} {response : Response F} {sample : Sample F}
  {group : RolloutGroup F} {samples : List (Sample F)} {generator generator' : Generator} {eosIds : List ℤ}
  {stops : List (List ℤ)}

section

variable (made : scored sampling options record response = .ok sample)
include made

theorem scored_ok : sample.promptIds = record.promptIds ∧ sample.policyVersion = options.policyVersion
      ∧ sample.responseIds = response.ids ∧ sample.behaviorLogProbs = response.behavior := by
  obtain ⟨_, -, same⟩ := bind_eq_ok.mp made
  cases same
  exact ⟨rfl, rfl, rfl, rfl⟩

theorem scored_some : sample.behaviorLogProbs ≠ [] := by
  obtain ⟨_, valid, same⟩ := bind_eq_ok.mp made
  cases same
  obtain ⟨_, -, valid⟩ := bind_eq_ok.mp valid
  obtain ⟨_, ids, valid⟩ := bind_eq_ok.mp valid
  obtain ⟨_, each, -⟩ := bind_eq_ok.mp valid
  obtain ⟨_, some_, -⟩ := bind_eq_ok.mp ids
  rw [require_eq_ok] at each some_
  intro none_
  rw [none_, length_nil, length_eq_zero_iff] at each
  rcases some_ with filled | allowed
  · exact filled each
  · cases allowed

end

theorem validate_one (some_ : 0 < options.groupSize) :
    ({ options with groupSize := 1 } : Options F Metadata).validate sampling = options.validate sampling := by
  unfold Options.validate
  simp only [require, if_pos some_, zero_lt_one, if_true]

theorem validate_ok {checked : List ℤ × List (List ℤ)} (valid : options.validate sampling = .ok checked) :
    0 < options.groupSize ∧ 0 < options.maxNewTokens ∧ 0 ≤ options.policyVersion ∧ 0 ≤ options.groupId := by
  unfold Options.validate at valid
  simp only [bind_eq_ok, require_eq_ok] at valid
  obtain ⟨-, -, -, size, -, tokens, -, version, -, id, -⟩ := valid
  exact ⟨size, tokens, version, id⟩

/-- The samples are of one prompt and one version. -/
def Alike (options : Options F Metadata) (record : PromptRecord Metadata) (samples : List (Sample F)) : Prop :=
  ∀ sample ∈ samples, sample.promptIds = record.promptIds ∧ sample.policyVersion = options.policyVersion

theorem validate_alike (alike : Alike options record samples) :
    (⟨samples, options.groupId, options.policyVersion⟩ : RolloutGroup F).validate = .ok ()
      ↔ samples ≠ [] ∧ 0 ≤ options.groupId ∧ 0 ≤ options.policyVersion := by
  unfold RolloutGroup.validate
  simp only [bind_eq_ok, require_eq_ok]
  constructor
  · rintro ⟨-, some_, -, id, -, version, -⟩
    exact ⟨some_, id, version⟩
  · rintro ⟨some_, id, version⟩
    refine ⟨(), some_, (), id, (), version, (), fun sample mem => (alike sample mem).2, fun sample mem => ?_⟩
    obtain ⟨first, rest, rfl⟩ := exists_cons_of_ne_nil some_
    rw [head?_cons, Option.map_some, (alike sample mem).1, (alike first mem_cons_self).1]

theorem generateGroup_one {next : NextLogits F config State} {state final : State}
    (valid : ({ options with groupSize := 1 } : Options F Metadata).validate sampling = .ok (eosIds, stops)) :
    generateGroup torch sampling next { options with groupSize := 1 } record state generator
        = .ok (group, final, generator')
      ↔ ∃ response sample, sampleTokens torch sampling next options.temperature eosIds stops record.promptIds
          options.maxNewTokens.toNat [] [] state generator = .ok (response, final, generator')
        ∧ scored sampling options record response = .ok sample
        ∧ group = ⟨[sample], options.groupId, options.policyVersion⟩ := by
  obtain ⟨-, -, version, id⟩ := validate_ok valid
  unfold generateGroup
  rw [bind_eq_ok]
  constructor
  · rintro ⟨_, same, ran⟩
    rw [valid] at same
    cases same
    obtain ⟨⟨samples, last, further⟩, all, rest⟩ := bind_eq_ok.mp ran
    obtain ⟨_, -, same⟩ := bind_eq_ok.mp rest
    cases same
    obtain ⟨⟨response, middle, drawn⟩, tokens, all⟩ := bind_eq_ok.mp all
    obtain ⟨sample, made, all⟩ := bind_eq_ok.mp all
    cases all
    exact ⟨response, sample, tokens, made, rfl⟩
  · rintro ⟨response, sample, tokens, made, rfl⟩
    obtain ⟨prompt, versions, -, -⟩ := scored_ok made
    refine ⟨_, valid, bind_eq_ok.mpr ⟨([sample], final, generator'), ?_, bind_eq_ok.mpr ⟨(), ?_, rfl⟩⟩⟩
    · exact bind_eq_ok.mpr ⟨_, tokens, bind_eq_ok.mpr ⟨sample, made, rfl⟩⟩
    · have alike : Alike options record [sample] := fun one mem => mem_singleton.mp mem ▸ ⟨prompt, versions⟩
      exact (validate_alike alike).mpr ⟨List.cons_ne_nil _ _, id, version⟩

section

variable (built : build policy = .ok cache) (last : policy.qwenLastPositionOnly = true)
include built last

/-- **Samples with a fresh cache each are those without.** -/
theorem sampleCached_native
    (valid : ({ options with groupSize := 1 } : Options F Metadata).validate sampling = .ok (eosIds,
      stops)) (count : ℕ) :
    sampleCached torch sampling policy options record count generator = .ok (samples, generator')
      ↔ sampleAll torch sampling (policy.nextTokenLogits torch) options record eosIds stops count () generator
        = .ok (samples, (), generator') := by
  have ready : Ready torch policy cache (record.promptIds ++ []) := .inl built
  induction count generalizing generator samples with
  | zero =>
    constructor
    all_goals
      intro same
      cases same
      rfl
  | succ count known =>
    unfold sampleCached sampleAll
    simp only [bind_eq_ok]
    constructor
    · rintro ⟨fresh, made, ⟨group, final, further⟩, one, ⟨others, more⟩, rest, same⟩
      rw [built] at made
      cases made
      cases same
      obtain ⟨response, sample, tokens, scored_, rfl⟩ := (generateGroup_one valid).mp one
      have native := (sampleTokens_cached last _ _ _ _ ready).mpr ⟨final, tokens⟩
      exact ⟨(response, (), further), native, sample, scored_, (others, (), _), known.mp rest, rfl⟩
    · rintro ⟨⟨response, _, further⟩, tokens, sample, made, ⟨others, _, more⟩, rest, same⟩
      cases same
      obtain ⟨final, cached⟩ := (sampleTokens_cached last _ _ _ _ ready).mp tokens
      exact ⟨cache, built, (⟨[sample], options.groupId, options.policyVersion⟩, final, further),
        (generateGroup_one valid).mpr ⟨response, sample, cached, made, rfl⟩, (others, _), known.mpr rest, rfl⟩

/-- **A group with caches is the group without, and the generator ends in the same state.** -/
theorem group_cached :
    generateCachedQwenGroup torch sampling policy options record generator = .ok (group, generator')
      ↔ generateGroup torch sampling (policy.nextTokenLogits torch) options record () generator
        = .ok (group, (), generator') := by
  unfold generateCachedQwenGroup generateGroup
  simp only [bind_eq_ok]
  constructor
  · rintro ⟨⟨samples, further⟩, all, _, fine, same⟩
    cases same
    obtain ⟨count, many⟩ : ∃ count, options.groupSize.toNat = count + 1 := by
      refine Nat.exists_eq_succ_of_ne_zero fun none_ => ?_
      rw [none_] at all
      cases all
      cases fine
    have size : 0 < options.groupSize := by omega
    have once := all
    rw [many] at once
    obtain ⟨_, -, once⟩ := bind_eq_ok.mp once
    obtain ⟨_, one, -⟩ := bind_eq_ok.mp once
    obtain ⟨⟨eosIds, stops⟩, valid, -⟩ := bind_eq_ok.mp one
    refine ⟨(eosIds, stops), (validate_one size).symm.trans valid, (samples, (), _),
      (sampleCached_native built last valid _).mp all, (), fine, rfl⟩
  · rintro ⟨⟨eosIds, stops⟩, valid, ⟨samples, _, further⟩, all, _, fine, same⟩
    obtain ⟨size, -, -, -⟩ := validate_ok valid
    rw [← validate_one size] at valid
    cases same
    exact ⟨(samples, _), (sampleCached_native built last valid _).mpr all, (), fine, rfl⟩

end

/-! ### Log probabilities again -/

/-- Each token has the log probability that the native logits give it after the tokens before it. -/
def Recorded (torch : Torch F) (policy : Policy F config) (temperature : F) : List ℤ → List ℤ → List F → Prop
  | _, [], [] => True
  | prior, token :: tokens, value :: values =>
    (∃ logits, policy.nextTokenLogits torch () prior = .ok (logits, ()) ∧ token < config.vocabSize
      ∧ entryAt (logSoftmax torch temperature logits) token = .ok value)
    ∧ Recorded torch policy temperature (prior ++ [token]) tokens values
  | _, _, _ => False

variable {temperature value : F} {token : ℤ}

theorem Recorded.concat {prior tokens : List ℤ} {values : List F} (recorded : Recorded torch policy temperature prior tokens values)
    (next : ∃ logits, policy.nextTokenLogits torch () (prior ++ tokens) = .ok (logits, ()) ∧ token < config.vocabSize
      ∧ entryAt (logSoftmax torch temperature logits) token = .ok value) :
    Recorded torch policy temperature prior (tokens ++ [token]) (values ++ [value]) := by
  induction tokens generalizing prior values with
  | nil =>
    cases values with
    | nil =>
      rw [append_nil] at next
      exact ⟨next, trivial⟩
    | cons value values => cases recorded
  | cons first tokens known =>
    cases values with
    | nil => cases recorded
    | cons value values =>
      obtain ⟨here, later⟩ := recorded
      refine ⟨here, known later ?_⟩
      rw [append_assoc]
      exact next

theorem entryAt_place {size : ℕ} (row : Vec F size) (place : Fin size) : entryAt row ((place : ℕ) : ℤ) = .ok (row place) := by
  have natural : ¬ ((place : ℕ) : ℤ) < 0 := by omega
  unfold entryAt rowAt
  rw [if_neg natural, if_pos (by omega), Int.toNat_natCast, List.getElem?_ofFn, dif_pos place.isLt]

theorem drawToken_ok {size : ℕ} {stopIds : List ℤ} {logits : Vec F size}
    (drawn : drawToken torch sampling temperature stopIds logits generator = .ok (token, value, generator')) :
    token < size ∧ entryAt (logSoftmax torch temperature logits) token = .ok value := by
  obtain ⟨_, -, drawn⟩ := bind_eq_ok.mp drawn
  obtain ⟨_, -, drawn⟩ := bind_eq_ok.mp drawn
  obtain ⟨_, -, drawn⟩ := bind_eq_ok.mp drawn
  obtain ⟨⟨place, further⟩, -, same⟩ := bind_eq_ok.mp drawn
  cases same
  exact ⟨by exact_mod_cast place.isLt, entryAt_place _ place⟩

theorem sampleTokens_recorded (fuel : ℕ) (ids : List ℤ) (behavior : List F)
    (recorded : Recorded torch policy temperature promptIds ids behavior)
    (sampled : sampleTokens torch sampling (policy.nextTokenLogits torch) temperature eosIds stops promptIds fuel ids behavior
      () generator = .ok (response, (), generator')) :
    Recorded torch policy temperature promptIds response.ids response.behavior := by
  induction fuel generalizing ids behavior generator with
  | zero =>
    cases sampled
    exact recorded
  | succ fuel known =>
    obtain ⟨⟨logits, _⟩, found, sampled⟩ := bind_eq_ok.mp sampled
    obtain ⟨⟨token, value, further⟩, drawn, sampled⟩ := bind_eq_ok.mp sampled
    have next := recorded.concat ⟨logits, found, drawToken_ok drawn⟩
    dsimp only at sampled
    cases ends : ending eosIds stops (ids ++ [token]) token with
    | some reason =>
      rw [ends] at sampled
      cases sampled
      exact next
    | none =>
      rw [ends] at sampled
      exact known _ _ next sampled

theorem sampleAll_sampled (count : ℕ) (all : sampleAll torch sampling (policy.nextTokenLogits torch) options record eosIds stops
    count () generator = .ok (samples, (), generator')) (mem : sample ∈ samples) :
    ∃ response before after, sampleTokens torch sampling (policy.nextTokenLogits torch) options.temperature eosIds stops
        record.promptIds options.maxNewTokens.toNat [] [] () before = .ok (response, (), after)
      ∧ scored sampling options record response = .ok sample := by
  induction count generalizing generator samples with
  | zero =>
    cases all
    cases mem
  | succ count known =>
    obtain ⟨⟨response, _, drawn⟩, tokens, all⟩ := bind_eq_ok.mp all
    obtain ⟨first, made, all⟩ := bind_eq_ok.mp all
    obtain ⟨⟨others, _, further⟩, rest, same⟩ := bind_eq_ok.mp all
    cases same
    rcases mem_cons.mp mem with rfl | later
    · exact ⟨response, generator, drawn, tokens, made⟩
    · exact known rest later

theorem replay_recorded (last : policy.qwenLastPositionOnly = true) {prior tokens : List ℤ} {values : List F}
    (ready : Ready torch policy cache prior) (recorded : Recorded torch policy temperature prior tokens values) :
    replay torch policy temperature cache prior tokens = .ok values := by
  induction tokens generalizing cache prior values with
  | nil =>
    cases values with
    | nil => rfl
    | cons value values => cases recorded
  | cons token tokens known =>
    cases values with
    | nil => cases recorded
    | cons value values =>
      obtain ⟨⟨logits, found, inside, entry⟩, later⟩ := recorded
      obtain ⟨row, native, rfl⟩ := (nextTokenLogits_iff last).mp found
      have unmasked : AllShown prior.length none := nofun
      have plain : policy.lastHidden torch prior none = .ok row :=
        (lastHidden_iff unmasked).mpr ((lastHidden_iff (ones_shown prior)).mp native)
      obtain ⟨after, decoded⟩ := (nextHidden_native ready unmasked).1.mp plain
      have next := (nextHidden_native ready unmasked).2 after decoded token
      refine bind_eq_ok.mpr ⟨(row, after), decoded, bind_eq_ok.mpr ⟨(), require_eq_ok.mpr inside, ?_⟩⟩
      exact bind_eq_ok.mpr ⟨value, entry, bind_eq_ok.mpr ⟨values, known next later, rfl⟩⟩

theorem group_replayed (built : build policy = .ok cache) (last : policy.qwenLastPositionOnly = true)
    (made : generateGroup torch sampling (policy.nextTokenLogits torch) options record () generator
      = .ok (group, (), generator')) (mem : sample ∈ group.samples) :
    cachedResponseLogProbs torch policy sample.promptIds sample.responseIds options.temperature
      = .ok sample.behaviorLogProbs := by
  obtain ⟨⟨eosIds, stops⟩, -, made⟩ := bind_eq_ok.mp made
  obtain ⟨⟨samples, _, further⟩, all, made⟩ := bind_eq_ok.mp made
  obtain ⟨_, -, same⟩ := bind_eq_ok.mp made
  cases same
  obtain ⟨response, before, after, tokens, accepted⟩ := sampleAll_sampled _ all mem
  obtain ⟨prompt, -, ids, behavior⟩ := scored_ok accepted
  have recorded := sampleTokens_recorded _ [] [] trivial tokens
  have some_ := scored_some accepted
  rw [prompt, ids]
  refine bind_eq_ok.mpr ⟨cache, built, bind_eq_ok.mpr ⟨_, replay_recorded last (.inl built) recorded, ?_⟩⟩
  rw [← behavior]
  exact bind_eq_ok.mpr ⟨(), require_eq_ok.mpr some_, rfl⟩

theorem build_last (built : build policy = .ok cache) : policy.qwenLastPositionOnly = true := by
  obtain ⟨_, accepted, -⟩ := bind_eq_ok.mp built
  exact (require_eq_ok.mp accepted).2.2.1

/-- **Cached decoding.** With a cache that the policy accepts: prefill and any number of appends yield the native hidden
states, and they are there for every prompt and tokens of the vocabulary that fit into the context; groups, and the state
of the generator after them, are those of the native path; and a sampled response is replayed with its recorded log
probabilities. -/
theorem cached_decoding (Metadata : Type) (torch : Torch F) (sampling : Sampling F Generator) (policy : Policy F config)
    (built : build policy = .ok cache) :
    (∀ prompt tokens rows, decodeRun torch policy cache (prefixes prompt tokens) = .ok rows
        ↔ (prefixes prompt tokens).mapM (fun inputIds => policy.lastHidden torch inputIds none) = .ok rows)
      ∧ (∀ prompt tokens, prompt ≠ [] → Known config (prompt ++ tokens) →
          (prompt ++ tokens).length ≤ config.maxPositionEmbeddings →
          ∃ rows, decodeRun torch policy cache (prefixes prompt tokens) = .ok rows)
      ∧ ∀ (options : Options F Metadata) (record : PromptRecord Metadata) (generator generator' : Generator)
          (group : RolloutGroup F),
        (generateCachedQwenGroup torch sampling policy options record generator = .ok (group, generator')
          ↔ generateGroup torch sampling (policy.nextTokenLogits torch) options record () generator
            = .ok (group, (), generator'))
        ∧ (generateCachedQwenGroup torch sampling policy options record generator = .ok (group, generator') →
          ∀ sample ∈ group.samples, cachedResponseLogProbs torch policy sample.promptIds sample.responseIds
            options.temperature = .ok sample.behaviorLogProbs) := by
  have last := build_last built
  refine ⟨fun prompt tokens rows => decodeRun_native tokens prompt (.inl built), fun prompt tokens some_ known fits => ?_,
    fun options record generator generator' group => ⟨group_cached built last, fun made sample member => ?_⟩⟩
  · obtain ⟨rows, native⟩ : ∃ rows, (prefixes prompt tokens).mapM
        (fun inputIds => policy.lastHidden torch inputIds none) = .ok rows := prefixes_known tokens prompt some_ known fits
    exact ⟨rows, (decodeRun_native tokens prompt (.inl built)).mpr native⟩
  · exact group_replayed built last ((group_cached built last).mp made) member

end Cached

/-! ### A model of two layers -/

noncomputable section Real

def realTorch : Torch ℝ where
  exp := Real.exp
  log := Real.log
  rsqrt value := (Real.sqrt value)⁻¹
  cos := Real.cos
  sin := Real.sin
  power := fun base exponent => base ^ exponent
  topk k size row := (((finRange size).mergeSort fun one two => row two ≤ row one).take k).map fun place => (row place, place)
  length_topk k size row within := by
    rw [length_map, length_take, length_mergeSort, length_finRange, min_eq_left within]

/-- A draw is the first place at which the probabilities so far reach the next number of a stream. -/
def stream : Sampling ℝ (List ℝ) where
  multinomial := fun {size} probabilities draws =>
    match draws with
    | [] => .error "the stream is at its end"
    | draw :: rest =>
      match (finRange size).find? fun place =>
          draw ≤ ((finRange size).filter fun other => other ≤ place).foldl (fun sum other => sum + probabilities other) 0 with
      | some place => .ok (place, rest)
      | none => .error "invalid multinomial distribution"
  isFinite _ := true

def tinyConfig : Config where
  hiddenSize := 1
  numKeyValueHeads := 1
  numKeyValueGroups := 1
  halfDim := 1
  intermediateSize := 1
  moeIntermediateSize := 1
  numExperts := 1
  numExpertsPerTok := 1
  vocabSize := 2
  maxPositionEmbeddings := 4
  routed := ⟨le_rfl, le_rfl⟩

def tinyAttention : Attention ℝ tinyConfig where
  qProj _ _ := 1
  kProj _ _ := 1
  vProj _ _ := 1
  oProj _ _ := 1
  qNorm _ := 1
  kNorm _ := 1

def tinyPolicy : Policy ℝ tinyConfig where
  backend := {
    constants := ⟨10000, 1 / 1000000⟩
    embedTokens := fun token _ => (token : ℕ)
    layers := [⟨tinyAttention, .dense ⟨fun _ _ => 1, fun _ _ => 1, fun _ _ => 1⟩, fun _ => 1, fun _ => 1⟩,
      ⟨tinyAttention, .sparse ⟨fun _ _ => 1, fun _ => ⟨fun _ _ => 1, fun _ _ => 1, fun _ _ => 1⟩, true⟩, fun _ => 1, fun _ => 1⟩]
    norm := fun _ => 1
    lmHead := fun token _ => (token : ℕ) }
  modelType := "qwen3_moe"
  trainableScope := "lm_head"
  qwenLastPositionOnly := true
  contextParallel := false
  headVersion := 0
  changed := none

/-- Two samples, each of which ends with the first token. -/
def tinyOptions : Options ℝ Unit where
  groupSize := 2
  maxNewTokens := 3
  temperature := 1
  eosTokenIds := some [0]
  policyVersion := 0
  groupId := 0
  rewardFn := ⟨fun _ _ => 1, false⟩
  stopTokenSequences := []
  truncatedReward := none

def tinyRecord : PromptRecord Unit := ⟨[1], none, (), rfl⟩

/-- A zero draws the first token, whose log probability is not positive. -/
theorem draw_first (logits : Vec ℝ 2) : ∃ value ≤ 0, ∀ draws,
    drawToken realTorch stream 1 [0] logits (0 :: draws) = .ok (0, value, draws) := by
  refine ⟨logSoftmax realTorch 1 logits 0, ?_, fun draws => ?_⟩
  · have first : Real.exp (logits 0 / 1) ≤ ∑ other, Real.exp (logits other / 1) :=
      Finset.single_le_sum (fun other _ => (Real.exp_pos (logits other / 1)).le) (Finset.mem_univ 0)
    exact sub_nonpos.mpr ((Real.le_log_iff_exp_le ((Real.exp_pos _).trans_le first)).mpr first)
  · have drawn : ∀ probabilities : Vec ℝ 2, 0 ≤ probabilities 0 →
        stream.multinomial probabilities (0 :: draws) = .ok (0, draws) := by
      intro probabilities likely
      simp [stream, finRange_succ, likely]
    refine ok_bind (require_ok Nat.two_pos) (ok_bind (require_ok (by decide)) (ok_bind (require_ok fun _ => rfl) ?_))
    exact ok_bind (drawn _ (Real.exp_pos _).le) rfl

theorem tiny_group : ∃ group, group.samples.length = 2 ∧
    generateGroup realTorch stream (tinyPolicy.nextTokenLogits realTorch) tinyOptions tinyRecord () [0, 0]
      = .ok (group, (), []) := by
  obtain ⟨row, hidden⟩ : ∃ row, tinyPolicy.lastHidden realTorch [1] (ones [1]) = .ok row :=
    lastHidden_known (ones_shown [1]) (by decide) (by unfold Known; decide)
  have next := (nextTokenLogits_iff rfl).mpr ⟨row, hidden, rfl⟩
  obtain ⟨value, low, drawn⟩ := draw_first (linear tinyPolicy.backend.lmHead row)
  have sampled : ∀ draws, sampleTokens realTorch stream (tinyPolicy.nextTokenLogits realTorch) 1 [0] [] [1] 3 [] [] ()
      (0 :: draws) = .ok (⟨[0], [value], .eos, 1⟩, (), draws) := fun draws => ok_bind next (ok_bind (drawn draws) rfl)
  have valid : Sample.validate stream ⟨[1], [0], [value], 1, 0, .eos, 1, 1⟩ = .ok () := by
    have small : value ≤ 1 / 1000000 := low.trans (by norm_num)
    refine ok_bind rfl (ok_bind rfl (ok_bind (require_ok rfl) (ok_bind (require_ok ?_) ?_)))
    · intro other member
      rw [mem_singleton.mp member]
      exact ⟨rfl, small⟩
    · exact ok_bind (require_ok rfl) (ok_bind (require_ok rfl) (ok_bind (require_ok le_rfl) (require_ok le_rfl)))
  have scores : scored stream tinyOptions tinyRecord ⟨[0], [value], .eos, 1⟩
      = .ok ⟨[1], [0], [value], 1, 0, .eos, 1, 1⟩ := ok_bind valid rfl
  have options : tinyOptions.validate stream = .ok ([0], []) := by
    refine ok_bind (require_ok ⟨rfl, one_pos⟩) (ok_bind rfl (ok_bind rfl (ok_bind rfl (ok_bind rfl (ok_bind rfl ?_)))))
    exact ok_bind rfl (ok_bind (require_ok fun _ given => (by cases given)) (by rw [reverse_nil, mergeSort_nil]; rfl))
  let sample : Sample ℝ := ⟨[1], [0], [value], 1, 0, .eos, 1, 1⟩
  have all : sampleAll realTorch stream (tinyPolicy.nextTokenLogits realTorch) tinyOptions tinyRecord [0] [] 2 () [0, 0]
      = .ok ([sample, sample], (), []) :=
    ok_bind (sampled [0]) (ok_bind scores (ok_bind (ok_bind (sampled []) (ok_bind scores rfl)) rfl))
  have whole : RolloutGroup.validate ⟨[sample, sample], 0, 0⟩ = .ok () := rfl
  exact ⟨⟨[sample, sample], 0, 0⟩, rfl, ok_bind options (ok_bind all (ok_bind whole rfl))⟩

/-- Two tokens are appended to a prompt, and a group of two samples is drawn and replayed. -/
theorem tiny_decoding : ∃ cache, build tinyPolicy = .ok cache ∧
    (∃ rows, decodeRun realTorch tinyPolicy cache (prefixes [1] [0, 1]) = .ok rows
      ∧ (prefixes [1] [0, 1]).mapM (fun inputIds => tinyPolicy.lastHidden realTorch inputIds none) = .ok rows)
    ∧ ∃ group, group.samples.length = 2
      ∧ generateCachedQwenGroup realTorch stream tinyPolicy tinyOptions tinyRecord [0, 0] = .ok (group, [])
      ∧ ∀ sample ∈ group.samples, cachedResponseLogProbs realTorch tinyPolicy sample.promptIds sample.responseIds 1
        = .ok sample.behaviorLogProbs := by
  obtain ⟨decodes, decoded, groups⟩ := cached_decoding Unit realTorch stream tinyPolicy (show build tinyPolicy = .ok
    ⟨0, none, [none, none]⟩ from rfl)
  obtain ⟨rows, found⟩ := decoded [1] [0, 1] (cons_ne_nil _ _) (by unfold Known; decide) (by decide)
  obtain ⟨group, two, native⟩ := tiny_group
  obtain ⟨same, replayed⟩ := groups tinyOptions tinyRecord [0, 0] [] group
  have made := same.mpr native
  exact ⟨_, rfl, ⟨rows, found, (decodes [1] [0, 1] rows).mp found⟩, group, two, made, replayed made⟩

end Real

end TinyDSV41.Qwen
