/-
**Decoding with the keys and values of a request.**

* `RequestCache`, `nextHidden` — a sequence is read once, and then one token at a time is appended.
* `Holds` — the cache has the keys and values of every layer for a sequence.
* `nextHidden_iff` — the hidden state is that of the causal stack, and the cache holds the sequence.
* `decodeRun_native` — so it is over any number of tokens.
-/

import TinyDSV41.Qwen.Model

set_option linter.unusedSectionVars false

namespace TinyDSV41.Qwen

open List Lib DecoderLayer

variable {F : Type} [Field F] {config : Config}

/-- What is read of a `QwenPolicy`. `changed` is the failure of `assert_engram_invariants`, if there is one. -/
structure Policy (F : Type) (config : Config) where
  backend : Backend F config
  modelType : String
  trainableScope : String
  qwenLastPositionOnly : Bool
  contextParallel : Bool
  headVersion : ℕ
  changed : Option String

/-- `QwenRequestKVCache` -/
structure RequestCache (F : Type) (config : Config) where
  headVersion : ℕ
  tokens : Option (List ℤ)
  keysValues : List (Option (List (KeyValue F config)))

/-- `QwenRequestKVCache.__init__` -/
def RequestCache.build (policy : Policy F config) : Except String (RequestCache F config) := do
  require (policy.modelType = "qwen3_moe" ∧ policy.trainableScope = "lm_head" ∧ policy.qwenLastPositionOnly = true
      ∧ policy.contextParallel = false)
    "cached Qwen decode requires local frozen-backbone last-position head training"
  match policy.changed with
  | some failure => .error failure
  | none => .ok {
      headVersion := policy.headVersion
      tokens := none
      keysValues := replicate policy.backend.layers.length none }

namespace DecoderLayer

variable (torch : Torch F) (constants : Constants F) (layer : DecoderLayer F config)

/-- A layer of `next_hidden`. A single appended token attends to every cached key. -/
def decode (previous : ℕ) (cached : Option (List (KeyValue F config))) (hidden : List (Vec F config.hiddenSize)) :
    List (KeyValue F config) × List (Vec F config.hiddenSize) :=
  let normalized := hidden.map (rmsNorm torch layer.inputLayernorm constants.rmsNormEps)
  let fresh := layer.selfAttn.keyValues torch constants previous normalized
  let keyValues := match cached with
    | none => fresh
    | some cached => cached ++ fresh
  let attended := normalized.zipIdx.map fun entry =>
    let mask := if previous = 0 then some (Attention.trilRow hidden.length entry.2) else none
    layer.selfAttn.attended torch (layer.selfAttn.query torch constants (previous + entry.2) entry.1) keyValues mask
  (keyValues, layer.finish torch constants (zipWith (· + ·) hidden attended))

/-- The loop of `next_hidden` over the layers. -/
def decodeAll (previous : ℕ) : List (DecoderLayer F config) → List (Option (List (KeyValue F config))) →
    List (Vec F config.hiddenSize) → List (Option (List (KeyValue F config))) × List (Vec F config.hiddenSize)
  | [], _, hidden => ([], hidden)
  | layer :: layers, cached, hidden =>
    let (keyValues, hidden) := layer.decode torch constants previous (cached.headD none) hidden
    let (further, output) := decodeAll previous layers cached.tail hidden
    (some keyValues :: further, output)

end DecoderLayer

/-- `[:, -1:]` of one sequence. -/
def lastRow {Row : Type} (rows : List Row) : Except String Row :=
  match rows.getLast? with
  | some row => .ok row
  | none => .error "index is out of bounds"

/-- `QwenRequestKVCache.next_hidden` -/
def nextHidden (torch : Torch F) (policy : Policy F config) (cache : RequestCache F config) (inputIds : List ℤ)
    (attentionMask : Option (List Bool)) : Except String (Vec F config.hiddenSize × RequestCache F config) := do
  require (0 < inputIds.length ∧ inputIds.length ≤ config.maxPositionEmbeddings)
    "cached Qwen input must be one unpadded token sequence within its context"
  require (∀ valid ∈ attentionMask, valid.length = inputIds.length ∧ valid.all id = true)
    "cached Qwen decode does not accept padding"
  require (policy.headVersion = cache.headVersion) "Qwen request cache cannot cross a policy weight update"
  let previous := (cache.tokens.map length).getD 0
  require (previous ≠ 0 → inputIds.length = previous + 1 ∧ cache.tokens = some (inputIds.take previous))
    "Qwen request cache requires exactly one unchanged-prefix append"
  let hidden ← policy.backend.embed (inputIds.drop previous)
  let (keysValues, hidden) := decodeAll torch policy.backend.constants previous policy.backend.layers
    cache.keysValues hidden
  let result ← lastRow (hidden.map (policy.backend.normRow torch))
  .ok (result, { cache with tokens := some inputIds, keysValues := keysValues })

/-! ### Layers -/

section Layers

variable {torch : Torch F} {constants : Constants F} {layer : DecoderLayer F config}

theorem decode_first (hidden : List (Vec F config.hiddenSize)) : layer.decode torch constants 0 none hidden
    = ((layer.causal torch constants).written 0 hidden, (layer.causal torch constants).full hidden) := by
  have whole : layer.forward torch constants hidden none = (layer.causal torch constants).full hidden :=
    forward_full hidden nofun
  rw [← whole]
  refine Prod.ext ?_ ?_
  · show layer.selfAttn.keyValues torch constants 0
      (hidden.map (rmsNorm torch layer.inputLayernorm constants.rmsNormEps)) = _
    unfold Attention.keyValues
    rw [zipIdx_map, map_map]
    rfl
  · unfold DecoderLayer.decode DecoderLayer.forward Attention.forward
    simp only [if_true, Nat.zero_add, length_map]
    rfl

theorem decode_appended {previous : ℕ} (some_ : previous ≠ 0) (cached : List (KeyValue F config))
    (hidden : Vec F config.hiddenSize) : layer.decode torch constants previous (some cached) [hidden]
      = (cached ++ [(layer.causal torch constants).write previous hidden],
        [(layer.causal torch constants).read previous hidden
          (cached ++ [(layer.causal torch constants).write previous hidden])]) := by
  unfold DecoderLayer.decode
  simp only [if_neg some_]
  rw [finish_rows]
  rfl

theorem decodeAll_first (layers : List (DecoderLayer F config)) (hidden : List (Vec F config.hiddenSize)) :
    decodeAll torch constants 0 layers (replicate layers.length none) hidden
      = ((memoriesOf (layers.map (causal torch constants)) hidden).map some,
        stack (layers.map (causal torch constants)) hidden) := by
  induction layers generalizing hidden with
  | nil => rfl
  | cons layer layers known =>
    unfold decodeAll
    rw [length_cons, replicate_succ, headD_cons, tail_cons, decode_first]
    simp only
    rw [known]
    rfl

theorem decodeAll_appended {previous : ℕ} (some_ : previous ≠ 0) (layers : List (DecoderLayer F config))
    (memories : List (List (KeyValue F config))) (many : memories.length = layers.length)
    (hidden : Vec F config.hiddenSize) :
    decodeAll torch constants previous layers (memories.map some) [hidden]
      = ((extend previous (layers.map (causal torch constants)) memories hidden).1.map some,
        [(extend previous (layers.map (causal torch constants)) memories hidden).2]) := by
  induction layers generalizing memories hidden with
  | nil => rfl
  | cons layer layers known =>
    cases memories with
    | nil => cases many
    | cons memory memories =>
      unfold decodeAll
      rw [map_cons, headD_cons, tail_cons, decode_appended some_]
      simp only
      rw [known memories (Nat.succ.inj many)]
      rfl

end Layers

/-! ### Requests -/

section Requests

variable {torch : Torch F} {policy : Policy F config} {cache after : RequestCache F config} {inputIds prior : List ℤ}
  {mask : Option (List Bool)} {row : Vec F config.hiddenSize}

def RequestCache.holding (torch : Torch F) (policy : Policy F config) (inputIds : List ℤ)
    (hidden : List (Vec F config.hiddenSize)) : RequestCache F config where
  headVersion := policy.headVersion
  tokens := some inputIds
  keysValues := (memoriesOf (policy.backend.causal torch) hidden).map some

/-- The cache is fresh, or it holds all but the last of the tokens. -/
def Ready (torch : Torch F) (policy : Policy F config) (cache : RequestCache F config) (inputIds : List ℤ) : Prop :=
  RequestCache.build policy = .ok cache ∨ ∃ prior token hidden, prior ≠ [] ∧ inputIds = prior ++ [token]
    ∧ policy.backend.embed prior = .ok hidden ∧ cache = .holding torch policy prior hidden

theorem build_eq (built : RequestCache.build policy = .ok cache) :
    cache = ⟨policy.headVersion, none, replicate policy.backend.layers.length none⟩ := by
  obtain ⟨_, -, made⟩ := bind_eq_ok.mp built
  cases changed : policy.changed with
  | some failure =>
    rw [changed] at made
    cases made
  | none =>
    rw [changed] at made
    exact (Except.ok.inj made).symm

theorem lastRow_ok {Row : Type} {rows : List Row} {row : Row} : lastRow rows = .ok row ↔ rows.getLast? = some row := by
  unfold lastRow
  cases rows.getLast? with
  | none => exact ⟨nofun, nofun⟩
  | some last => exact ⟨fun same => congrArg some (Except.ok.inj same), fun same => congrArg _ (Option.some.inj same)⟩

variable {backend : Backend F config}

theorem embed_single {token : ℤ} {more : List (Vec F config.hiddenSize)} :
    backend.embed [token] = .ok more ↔ ∃ state, backend.embedToken token = .ok state ∧ more = [state] := by
  unfold Backend.embed
  rw [mapM_eq_ok, forall₂_cons_left_iff]
  constructor
  · rintro ⟨state, rest, found, none_, rfl⟩
    rw [forall₂_nil_left_iff.mp none_]
    exact ⟨state, found, rfl⟩
  · rintro ⟨state, found, rfl⟩
    exact ⟨state, [], found, .nil, rfl⟩

theorem embed_concat {prior : List ℤ} {token : ℤ} {before hidden : List (Vec F config.hiddenSize)}
    (embedded : backend.embed prior = .ok before) :
    backend.embed (prior ++ [token]) = .ok hidden ↔ ∃ state, backend.embedToken token = .ok state
      ∧ hidden = before ++ [state] := by
  have split : backend.embed (prior ++ [token]) = (do
      let first ← backend.embed prior
      let more ← backend.embed [token]
      pure (first ++ more)) := mapM_append
  rw [split, bind_eq_ok]
  constructor
  · rintro ⟨first, found, rest⟩
    obtain ⟨more, last, same⟩ := bind_eq_ok.mp rest
    obtain ⟨state, known, rfl⟩ := embed_single.mp last
    rw [embedded] at found
    cases found
    exact ⟨state, known, (Except.ok.inj same).symm⟩
  · rintro ⟨state, known, rfl⟩
    exact ⟨before, embedded, ok_bind (embed_single.mpr ⟨state, known, rfl⟩) rfl⟩

theorem length_memoriesOf {State Memory : Type} (layers : List (Layer State Memory)) (states : List State) :
    (memoriesOf layers states).length = layers.length := by
  induction layers generalizing states with
  | nil => rfl
  | cons layer layers known => exact congrArg (· + 1) (known (layer.full states))

/-- **The hidden state is that of the whole sequence, and the cache holds the sequence.** -/
theorem nextHidden_iff (ready : Ready torch policy cache inputIds) (shown : AllShown inputIds.length mask) :
    nextHidden torch policy cache inputIds mask = .ok (row, after) ↔
      (0 < inputIds.length ∧ inputIds.length ≤ config.maxPositionEmbeddings) ∧ ∃ hidden,
        policy.backend.embed inputIds = .ok hidden
        ∧ ((stack (policy.backend.causal torch) hidden).map (policy.backend.normRow torch)).getLast? = some row
        ∧ after = .holding torch policy inputIds hidden := by
  have unpadded : ∀ valid ∈ mask, valid.length = inputIds.length ∧ valid.all id = true := by
    intro valid given
    rw [shown valid given, length_replicate]
    exact ⟨rfl, all_eq_true.mpr fun one => eq_of_mem_replicate⟩
  unfold nextHidden
  rcases ready with fresh | ⟨prior, token, before, some_, rfl, embedded, rfl⟩
  · rw [build_eq fresh]
    simp only [bind_eq_ok, require_eq_ok, Option.map_none, Option.getD_none, drop_zero, decodeAll_first, lastRow_ok]
    constructor
    · rintro ⟨-, bounds, -, -, -, -, -, -, hidden, found, result, last, same⟩
      cases same
      exact ⟨bounds, hidden, found, last, rfl⟩
    · rintro ⟨bounds, hidden, found, last, rfl⟩
      exact ⟨(), bounds, (), unpadded, (), trivial, (), absurd rfl, hidden, found, row, last, rfl⟩
  · have length : before.length = prior.length := (mapM_eq_ok.mp embedded).length_eq.symm
    have later : prior.length ≠ 0 := fun empty => some_ (length_eq_zero_iff.mp empty)
    have appended : ∀ state, decodeAll torch policy.backend.constants prior.length policy.backend.layers
        ((memoriesOf (policy.backend.causal torch) before).map some) [state]
          = ((memoriesOf (policy.backend.causal torch) (before ++ [state])).map some,
            [(extend before.length (policy.backend.causal torch) (memoriesOf (policy.backend.causal torch) before) state).2]) := by
      intro state
      rw [← (extend_memoriesOf (policy.backend.causal torch) before state).1, length]
      exact decodeAll_appended later _ _ (by rw [length_memoriesOf, Backend.causal, length_map]) state
    have ends : ∀ state, ((stack (policy.backend.causal torch) (before ++ [state])).map (policy.backend.normRow torch)).getLast?
        = some (policy.backend.normRow torch
          (extend before.length (policy.backend.causal torch) (memoriesOf (policy.backend.causal torch) before) state).2) := by
      intro state
      rw [getLast?_map, stack_getLast?]
      rfl
    simp only [bind_eq_ok, require_eq_ok, RequestCache.holding, Option.map_some, Option.getD_some, lastRow_ok,
      drop_left, take_left, embed_concat embedded]
    constructor
    · rintro ⟨-, bounds, -, -, -, -, -, -, more, found, result, last, same⟩
      obtain ⟨state, known, rfl⟩ := (embed_single.mp found)
      rw [appended] at last same
      cases same
      refine ⟨bounds, _, ⟨state, known, rfl⟩, ?_, rfl⟩
      rw [ends]
      exact last
    · rintro ⟨bounds, hidden, ⟨state, known, rfl⟩, last, rfl⟩
      refine ⟨(), bounds, (), unpadded, (), trivial, (), fun _ => ⟨by rw [length_append]; rfl, trivial⟩, [state],
        embed_single.mpr ⟨state, known, rfl⟩, row, ?_, ?_⟩
      · rw [appended]
        rw [ends] at last
        exact last
      · rw [appended]

def Policy.lastHidden (torch : Torch F) (policy : Policy F config) (inputIds : List ℤ) (attentionMask : Option (List Bool)) :
    Except String (Vec F config.hiddenSize) := do
  let states ← policy.backend.forward torch inputIds attentionMask
  lastRow states

theorem lastHidden_iff (shown : AllShown inputIds.length mask) : policy.lastHidden torch inputIds mask = .ok row ↔
    (0 < inputIds.length ∧ inputIds.length ≤ config.maxPositionEmbeddings) ∧ ∃ hidden,
      policy.backend.embed inputIds = .ok hidden
      ∧ ((stack (policy.backend.causal torch) hidden).map (policy.backend.normRow torch)).getLast? = some row := by
  unfold Policy.lastHidden
  simp only [bind_eq_ok, Backend.forward_eq policy.backend shown, lastRow_ok]
  constructor
  · rintro ⟨states, ⟨bounds, hidden, embedded, rfl⟩, last⟩
    exact ⟨bounds, hidden, embedded, last⟩
  · rintro ⟨bounds, hidden, embedded, last⟩
    exact ⟨_, ⟨bounds, hidden, embedded, rfl⟩, last⟩

def Known (config : Config) (inputIds : List ℤ) : Prop := ∀ token ∈ inputIds, 0 ≤ token ∧ token < config.vocabSize

theorem embed_known (known : Known config inputIds) : ∃ hidden, backend.embed inputIds = .ok hidden := by
  induction inputIds with
  | nil => exact ⟨[], rfl⟩
  | cons token tokens further =>
    obtain ⟨⟨low, high⟩, later⟩ := forall_mem_cons.mp known
    obtain ⟨hidden, rest⟩ := further later
    have inside : token.toNat < config.vocabSize := by omega
    have first : backend.embedToken token = .ok (backend.embedTokens ⟨token.toNat, inside⟩) := by
      unfold Backend.embedToken
      rw [dif_pos inside, if_pos low]
    exact ⟨_ :: hidden, mapM_eq_ok.mpr (.cons first (mapM_eq_ok.mp rest))⟩

theorem lastHidden_known (shown : AllShown inputIds.length mask)
    (bounds : 0 < inputIds.length ∧ inputIds.length ≤ config.maxPositionEmbeddings) (known : Known config inputIds) :
    ∃ row, policy.lastHidden torch inputIds mask = .ok row := by
  obtain ⟨hidden, embedded⟩ : ∃ hidden, policy.backend.embed inputIds = .ok hidden := embed_known known
  have length : (stack (policy.backend.causal torch) hidden).length = inputIds.length := by
    rw [length_stack, (mapM_eq_ok.mp embedded).length_eq]
  have some_ : (stack (policy.backend.causal torch) hidden).map (policy.backend.normRow torch) ≠ [] := by
    rw [Ne, map_eq_nil_iff, ← length_eq_zero_iff, length]
    omega
  exact ⟨_, (lastHidden_iff shown).mpr ⟨bounds, hidden, embedded, getLast?_eq_getLast_of_ne_nil some_⟩⟩

/-- **A hidden state is found with the cache exactly if it is the native one.** Then the cache is ready for any next
token. -/
theorem nextHidden_native (ready : Ready torch policy cache inputIds) (shown : AllShown inputIds.length mask) :
    (policy.lastHidden torch inputIds mask = .ok row ↔ ∃ after, nextHidden torch policy cache inputIds mask = .ok (row, after))
      ∧ ∀ after, nextHidden torch policy cache inputIds mask = .ok (row, after) →
          ∀ token, Ready torch policy after (inputIds ++ [token]) := by
  rw [lastHidden_iff shown]
  simp only [nextHidden_iff ready shown]
  constructor
  · constructor
    · rintro ⟨bounds, hidden, embedded, last⟩
      exact ⟨_, bounds, hidden, embedded, last, rfl⟩
    · rintro ⟨_, bounds, hidden, embedded, last, -⟩
      exact ⟨bounds, hidden, embedded, last⟩
  · rintro after ⟨bounds, hidden, embedded, last, rfl⟩ token
    exact .inr ⟨inputIds, token, hidden, ne_nil_of_length_pos bounds.1, rfl, embedded, rfl⟩

/-- A prompt, and the prompt with more and more of the tokens that are appended. -/
def prefixes (prompt : List ℤ) : List ℤ → List (List ℤ)
  | [] => [prompt]
  | token :: tokens => prompt :: prefixes (prompt ++ [token]) tokens

def decodeRun (torch : Torch F) (policy : Policy F config) :
    RequestCache F config → List (List ℤ) → Except String (List (Vec F config.hiddenSize))
  | _, [] => .ok []
  | cache, inputIds :: rest => do
      let (row, after) ← nextHidden torch policy cache inputIds none
      let rows ← decodeRun torch policy after rest
      .ok (row :: rows)

/-- **Prefill and appends yield the native hidden states.** -/
theorem decodeRun_native (tokens prompt : List ℤ) (ready : Ready torch policy cache prompt)
    {rows : List (Vec F config.hiddenSize)} : decodeRun torch policy cache (prefixes prompt tokens) = .ok rows
      ↔ (prefixes prompt tokens).mapM (fun inputIds => policy.lastHidden torch inputIds none) = .ok rows := by
  have unmasked : ∀ inputIds : List ℤ, AllShown inputIds.length none := nofun
  induction tokens generalizing prompt cache rows with
  | nil =>
    unfold prefixes decodeRun decodeRun
    rw [mapM_eq_ok, forall₂_cons_left_iff, bind_eq_ok]
    constructor
    · rintro ⟨⟨row, after⟩, found, same⟩
      cases same
      exact ⟨row, [], (nextHidden_native ready (unmasked _)).1.mpr ⟨after, found⟩, .nil, rfl⟩
    · rintro ⟨row, rest, found, none_, rfl⟩
      obtain ⟨after, decoded⟩ := (nextHidden_native ready (unmasked _)).1.mp found
      rw [forall₂_nil_left_iff.mp none_]
      exact ⟨(row, after), decoded, rfl⟩
  | cons token tokens known =>
    unfold prefixes decodeRun
    rw [mapM_cons, bind_eq_ok, bind_eq_ok]
    constructor
    · rintro ⟨⟨row, after⟩, found, same⟩
      obtain ⟨more, later, same⟩ := bind_eq_ok.mp same
      cases same
      have next := (nextHidden_native ready (unmasked _)).2 after found token
      exact ⟨row, (nextHidden_native ready (unmasked _)).1.mpr ⟨after, found⟩,
        ok_bind ((known _ next).mp later) rfl⟩
    · rintro ⟨row, found, same⟩
      obtain ⟨more, later, same⟩ := bind_eq_ok.mp same
      cases same
      obtain ⟨after, decoded⟩ := (nextHidden_native ready (unmasked _)).1.mp found
      have next := (nextHidden_native ready (unmasked _)).2 after decoded token
      exact ⟨(row, after), decoded, ok_bind ((known _ next).mpr later) rfl⟩

theorem prefixes_known (tokens prompt : List ℤ) (some_ : prompt ≠ []) (known : Known config (prompt ++ tokens))
    (fits : (prompt ++ tokens).length ≤ config.maxPositionEmbeddings) :
    ∃ rows, (prefixes prompt tokens).mapM (fun inputIds => policy.lastHidden torch inputIds none) = .ok rows := by
  have unmasked : ∀ inputIds : List ℤ, AllShown inputIds.length none := nofun
  have here : ∃ row, policy.lastHidden torch prompt none = .ok row := by
    rw [length_append] at fits
    exact lastHidden_known (unmasked _) ⟨List.length_pos_of_ne_nil some_, by omega⟩
      fun token mem => known token (mem_append_left _ mem)
  obtain ⟨row, found⟩ := here
  induction tokens generalizing prompt row with
  | nil => exact ⟨[row], mapM_eq_ok.mpr (.cons found .nil)⟩
  | cons token tokens further =>
    have same : prompt ++ token :: tokens = prompt ++ [token] ++ tokens := (append_cons prompt token tokens)
    rw [same] at known fits
    have next : ∃ row, policy.lastHidden torch (prompt ++ [token]) none = .ok row := by
      rw [length_append] at fits
      exact lastHidden_known (unmasked _) ⟨by rw [length_append]; exact Nat.succ_pos _, by omega⟩
        fun token mem => known token (mem_append_left _ mem)
    obtain ⟨later, after⟩ := next
    obtain ⟨rows, rest⟩ := further _ (append_ne_nil_of_right_ne_nil _ (cons_ne_nil _ _)) known fits later after
    exact ⟨row :: rows, mapM_eq_ok.mpr (.cons found (mapM_eq_ok.mp rest))⟩

end Requests

end TinyDSV41.Qwen
