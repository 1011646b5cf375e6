/-
**The LoRA rollout controller: one actor behind a sampler lock and an admission gate.**

Sampling calls run in threads of their own. A call is admitted while the controller is running, waits
for the sampler lock, looks for an earlier failure, and hands its batch to the actor. The control
operations exclude each other; `pause` and `close` wait until no admitted batch is left. A refused call
changes nothing.

* `checkSpecs`, `LoRARules.checkEngine`, `LoRARules.checkBatch` — the checks of requests and of the
  actor's answers.
* `LoRA.step` — the steps of the calls and of the control operations.
* `loraSystem` — the runs of a controller from its construction.

What the actor makes of a request is given from outside: an answer or none, and the weights that it
holds after a load; an engine acknowledges the weights that it holds.
-/

import TinyDSV41.Lib.Transition
import TinyDSV41.Lib.Threads
import TinyDSV41.Serving.Policy

namespace TinyDSV41.Serving

open Lib
open Relay (Id)

/-! ### Requests, policies and answers -/

structure BaseIdentity where
  configSha256 : String
  indexSha256 : String
deriving DecidableEq

/-- A manifest of adapter tensors, as far as the controller reads it. -/
structure Manifest where
  version : ℕ
  digest : String
  lineage : String
  adapterId : ℕ
  baseIdentity : BaseIdentity
deriving DecidableEq

/-- `policy_ack`. -/
def Manifest.policyAck (manifest : Manifest) : PolicyAck :=
  ⟨manifest.version, manifest.digest, manifest.lineage⟩

/-- A policy as the actor holds it: its acknowledgement and its adapter. -/
def Manifest.weights (manifest : Manifest) : PolicyAck × ℕ := (manifest.policyAck, manifest.adapterId)

/-- A request specification of a batch. -/
structure Spec where
  promptIds : List ℕ
  maxTokens : ℕ
  temperature : ℚ
  requestId : Id
  samplingSeed : ℕ
deriving DecidableEq

/-- The bounds of `_specs` on one specification. -/
def Spec.bounded (spec : Spec) : Bool :=
  1 ≤ spec.promptIds.length && spec.promptIds.length ≤ 4096 &&
  spec.promptIds.all (· < 2 ^ 31) && 1 ≤ spec.maxTokens && spec.maxTokens ≤ 4096 &&
  (0 < spec.temperature && spec.temperature ≤ 10) && spec.samplingSeed < 2 ^ 63 - 1

/-- `_specs`. -/
def checkSpecs (specs : List Spec) : Bool :=
  1 ≤ specs.length && specs.length ≤ 32 && specs.all Spec.bounded &&
    decide (specs.map (·.requestId)).Nodup

/-- A worker in a receipt of the engine. -/
structure LoRAWorker where
  deviceUuid : Option String
  loraConfig : String
  baseIdentity : BaseIdentity
  policyAck : Option PolicyAck
  adapterId : Option ℕ
  readbackDigest : Option String
deriving DecidableEq

structure LoRAEngine where
  servingProfile : String
  baseIdentity : BaseIdentity
  tensorParallelSize : ℕ
  loraConfig : String
  workers : List LoRAWorker
  loadedPolicyAck : Option PolicyAck
  adapterId : Option ℕ
deriving DecidableEq

/-- The answer to `load_lora`; a receipt is an acknowledgement and a digest. -/
structure LoadReply where
  engine : LoRAEngine
  ack : Option PolicyAck
  adapterId : Option ℕ
  activationReceipts : List (Option PolicyAck × Option String)

/-- A sampled response with its metrics; an engine identity that is decimal has a value. -/
structure LoRAResult where
  contextTokenIds : List ℕ
  actionTokenIds : List ℕ
  logprobConvention : String
  policyAck : Option PolicyAck
  adapterRequestId : Option ℕ
  requestId : Id
  samplingSeed : ℕ
  batchRequestIndex : ℕ
  engineRequestId : Option (String × ℕ)

/-- The answer to `generate_batch`. -/
structure BatchReply where
  batchId : Option String
  results : List LoRAResult
  engine : LoRAEngine

/-- The configuration of the rollout, as far as the controller reads it. -/
structure LoRARolloutConfig where
  deadlineUnix : Option ℚ
  operationTimeoutSeconds : ℕ
  rolloutDevices : List String
  maxModelLen : ℕ
  maxNumSeqs : ℕ
  loraConfig : String

/-- `_timeout`, at a reading of the clock. -/
def LoRARolloutConfig.timeout (config : LoRARolloutConfig) (now : ℚ) : Option ℚ :=
  match config.deadlineUnix with
  | none => some config.operationTimeoutSeconds
  | some deadline =>
    if deadline - now ≤ 0 then none
    else some (min (deadline - now) config.operationTimeoutSeconds)

/-- What a controller is built with: its configuration, the mounted model, `lora_batch_id`, and
`validate_update` and `validate_adapter_manifest` of a manifest with its payload. -/
structure LoRARules where
  config : LoRARolloutConfig
  baseIdentity : BaseIdentity
  batchId : List Spec → PolicyAck → String
  validUpdate : Manifest → Bool

namespace LoRARules

variable (rules : LoRARules)

/-- `_check_engine`. -/
def checkEngine (engine : LoRAEngine) (manifest : Option Manifest) : Bool :=
  engine.servingProfile = "deepseek-lora-v1" && engine.baseIdentity = rules.baseIdentity &&
  engine.tensorParallelSize = rules.config.rolloutDevices.length &&
  engine.loraConfig = rules.config.loraConfig &&
  engine.workers.length = rules.config.rolloutDevices.length &&
  engine.workers.all (fun worker => worker.deviceUuid.any (· ≠ "")) &&
  decide (engine.workers.map (·.deviceUuid)).Nodup &&
  engine.workers.all (fun worker => worker.loraConfig = rules.config.loraConfig) &&
  manifest.all fun manifest =>
    engine.loadedPolicyAck = some manifest.policyAck &&
    engine.adapterId = some manifest.adapterId &&
    engine.workers.all fun worker =>
      worker.baseIdentity = rules.baseIdentity && worker.policyAck = some manifest.policyAck &&
      worker.adapterId = some manifest.adapterId && worker.readbackDigest = some manifest.digest

/-- The checks of `_activate`. -/
def checkLoad (reply : LoadReply) (manifest : Manifest) : Bool :=
  rules.checkEngine reply.engine (some manifest) && reply.ack = some manifest.policyAck &&
  reply.adapterId = some manifest.adapterId &&
  reply.activationReceipts.length = rules.config.rolloutDevices.length &&
  reply.activationReceipts.all fun receipt =>
    receipt.1 = some manifest.policyAck && receipt.2 = some manifest.digest

/-- One response is bound to its specification and the policy of its batch. -/
def checkResult (manifest : Manifest) (spec : Spec) (result : LoRAResult) (index : ℕ) : Bool :=
  result.policyAck = some manifest.policyAck &&
  result.adapterRequestId = some manifest.adapterId &&
  result.logprobConvention = "sampled_distribution" &&
  result.contextTokenIds = spec.promptIds && result.requestId = spec.requestId &&
  result.samplingSeed = spec.samplingSeed && result.batchRequestIndex = index &&
  result.engineRequestId.isSome

/-- The checks of `sample_batch` on an answer. -/
def checkBatch (manifest : Manifest) (specs : List Spec) (reply : BatchReply) : Bool :=
  rules.checkEngine reply.engine (some manifest) &&
  reply.batchId = some (rules.batchId specs manifest.policyAck) &&
  reply.results.length = specs.length &&
  ((specs.zip reply.results).zipIdx.all fun entry =>
    checkResult manifest entry.1.1 entry.1.2 entry.2) &&
  decide ((reply.results.filterMap (·.engineRequestId)).map (·.1)).Nodup &&
  decide (((reply.results.filterMap (·.engineRequestId)).map (·.2)).Pairwise (· ≤ ·))

end LoRARules

/-! ### The state -/

/-- `_state`. -/
inductive LoRAPhase
  | new
  | loading
  | paused
  | running
  | pausing
  | failed
  | closing
  | closed
deriving DecidableEq

inductive BatchPlace
  /-- Admitted, and waiting for the sampler lock. -/
  | waiting
  /-- It has the lock, and has not looked for a failure yet. -/
  | holding
  /-- It has found no failure. -/
  | ready
  /-- Its batch is with the actor. -/
  | calling
  /-- The answer is checked. -/
  | sampled (results : List LoRAResult)
  /-- It has found a failure. -/
  | refused
  /-- An exception was raised in the body of the lock. -/
  | broken
  /-- The exception has set the state. -/
  | latched
  /-- An exception leaves the lock. -/
  | raising
  /-- The exception has set the state again. -/
  | marked
  /-- The results leave the lock. -/
  | returning (results : List LoRAResult)
  /-- The call has ended. -/
  | over (results : Option (List LoRAResult))

def BatchPlace.locked : BatchPlace → Bool
  | .holding | .ready | .calling | .sampled _ | .refused | .broken | .latched => true
  | _ => false

def BatchPlace.admitted : BatchPlace → Bool
  | .over _ => false
  | _ => true

/-- A sampling call with its immutable group and the manifest it was admitted under. -/
structure Batch where
  specs : List Spec
  manifest : Option Manifest
  place : BatchPlace

/-- What a call counts for in `_active`. -/
def Batch.weight (batch : Batch) : ℕ := if batch.place.admitted then batch.specs.length else 0

def Batch.ids (batch : Batch) : List Id := batch.specs.map (·.requestId)

inductive LoRAControl
  | idle
  | starting
  | activating (manifest : Manifest)
  /-- `pause` waits for the drain. -/
  | pausing
  /-- `pause` has seen the drain. -/
  | drained
  /-- `close` waits for the drain. -/
  | closing
  /-- `close` stops the actor. -/
  | stopping

inductive LoRAEvent
  | dispatched (thread : ℕ) (ids : List Id)
  | failed (thread : ℕ)
  | activated (manifest : Manifest)

/-- A controller, the weights of its actor, and the history. -/
structure LoRA where
  phase : LoRAPhase
  active : ℕ
  seen : List Id
  usedAdapterIds : List ℕ
  ack : Option PolicyAck
  activeManifest : Option Manifest
  control : LoRAControl
  samplerLock : Option ℕ
  batches : List Batch
  weights : Option (PolicyAck × ℕ)
  log : List LoRAEvent

def LoRA.fresh : LoRA := ⟨.new, 0, [], [], none, none, .idle, none, [], none, []⟩

/-! ### Steps -/

/-- A step of a sampling call, of the actor or of a control operation. -/
inductive LoRAAction
  | admitBatch (specs : List Spec) (now : ℚ)
  | acquire (thread : ℕ)
  | look (thread : ℕ)
  | dispatch (thread : ℕ) (now : ℚ)
  | reply (thread : ℕ) (reply : Option BatchReply)
  | latch (thread : ℕ)
  | release (thread : ℕ)
  | mark (thread : ℕ)
  | leave (thread : ℕ)
  | start
  | started (before after : ℚ) (engine : Option LoRAEngine)
  | activate (manifest : Manifest) (now : ℚ)
  | activated (weights : Option (PolicyAck × ℕ)) (reply : Option LoadReply)
  | pause
  | drain
  | paused
  | resume (now : ℚ)
  | close
  | closed (acknowledged : Bool)
  /-- The waiter of a control operation is cancelled behind the end of its thread. -/
  | cancel

namespace LoRA

variable (rules : LoRARules) (lora : LoRA)

def move (thread : ℕ) (batch : Batch) (place : BatchPlace) : List Batch :=
  lora.batches.set thread { batch with place := place }

/-- The admission of `sample_batch`. -/
def admitBatch (specs : List Spec) (now : ℚ) : Option LoRA :=
  if checkSpecs specs = true ∧ specs.length ≤ rules.config.maxNumSeqs ∧
      (specs.all fun spec => spec.promptIds.length + spec.maxTokens ≤ rules.config.maxModelLen) = true ∧
      (rules.config.timeout now).isSome ∧ lora.phase = .running ∧
      ∀ spec ∈ specs, spec.requestId ∉ lora.seen then
    some { lora with
      seen := lora.seen ++ specs.map (·.requestId)
      active := lora.active + specs.length
      batches := lora.batches ++ [⟨specs, lora.activeManifest, .waiting⟩] }
  else none

/-- The call computes the identity of its batch and its timeout, and hands the batch over. -/
def dispatch (thread : ℕ) (batch : Batch) (now : ℚ) : LoRA :=
  match batch.manifest, rules.config.timeout now with
  | some _, some _ => { lora with
      batches := lora.move thread batch .calling
      log := lora.log ++ [.dispatched thread batch.ids] }
  | _, _ => { lora with
      batches := lora.move thread batch .broken
      log := lora.log ++ [.failed thread] }

/-- The call to the actor ends, with an answer or without one. -/
def receive (thread : ℕ) (batch : Batch) (reply : Option BatchReply) : LoRA :=
  match batch.manifest, reply with
  | some manifest, some reply =>
    if rules.checkBatch manifest batch.specs reply = true then
      { lora with batches := lora.move thread batch (.sampled reply.results) }
    else { lora with
      batches := lora.move thread batch .broken
      log := lora.log ++ [.failed thread] }
  | _, _ => { lora with
      batches := lora.move thread batch .broken
      log := lora.log ++ [.failed thread] }

def batchStep (thread : ℕ) (batch : Batch) : LoRAAction → Option LoRA
  | .acquire _ =>
    match batch.place, lora.samplerLock with
    | .waiting, none => some { lora with
        samplerLock := some thread
        batches := lora.move thread batch .holding }
    | _, _ => none
  | .look _ =>
    match batch.place with
    | .holding =>
      if lora.phase = .failed then some { lora with batches := lora.move thread batch .refused }
      else some { lora with batches := lora.move thread batch .ready }
    | _ => none
  | .dispatch _ now =>
    match batch.place with
    | .ready => some (lora.dispatch rules thread batch now)
    | _ => none
  | .reply _ reply =>
    match batch.place with
    | .calling => some (lora.receive rules thread batch reply)
    | _ => none
  | .latch _ =>
    match batch.place with
    | .broken => some { lora with phase := .failed, batches := lora.move thread batch .latched }
    | _ => none
  | .release _ =>
    match batch.place with
    | .sampled results => some { lora with
        samplerLock := none
        batches := lora.move thread batch (.returning results) }
    | .refused | .latched => some { lora with
        samplerLock := none
        batches := lora.move thread batch .raising }
    | _ => none
  | .mark _ =>
    match batch.place with
    | .raising => some { lora with phase := .failed, batches := lora.move thread batch .marked }
    | _ => none
  | .leave _ =>
    match batch.place with
    | .returning results => some { lora with
        active := lora.active - batch.specs.length
        batches := lora.move thread batch (.over (some results)) }
    | .marked => some { lora with
        active := lora.active - batch.specs.length
        batches := lora.move thread batch (.over none) }
    | _ => none
  | _ => none

/-- `_start`; the engine's first receipt, if the actor came up. -/
def started (before after : ℚ) (engine : Option LoRAEngine) : LoRA :=
  if (rules.config.timeout before).isNone then { lora with control := .idle }
  else if (engine.any (rules.checkEngine · none)) = true ∧ (rules.config.timeout after).isSome then
    { lora with phase := .paused, control := .idle }
  else { lora with phase := .failed, control := .idle }

/-- The checks of `activate` under the condition. -/
def admitsManifest (manifest : Manifest) : Bool :=
  lora.phase = .paused && lora.active = 0 &&
  manifest.version = (match lora.ack with
    | none => 0
    | some ack => ack.version + 1) &&
  manifest.adapterId ∉ lora.usedAdapterIds &&
  lora.ack.all (manifest.lineage = ·.lineage) && manifest.baseIdentity = rules.baseIdentity

/-- The end of `_activate`. -/
def activated (manifest : Manifest) (weights : Option (PolicyAck × ℕ)) (reply : Option LoadReply) :
    LoRA :=
  if (reply.any (rules.checkLoad · manifest)) = true then { lora with
    ack := some manifest.policyAck
    activeManifest := some manifest
    usedAdapterIds := lora.usedAdapterIds ++ [manifest.adapterId]
    weights := weights
    control := .idle
    log := lora.log ++ [.activated manifest] }
  else { lora with phase := .failed, ack := none, weights := weights, control := .idle }

/-- An engine acknowledges the weights that it holds. -/
def truthful (weights : Option (PolicyAck × ℕ)) (reply : Option LoadReply) : Bool :=
  reply.all fun reply => reply.engine.loadedPolicyAck = weights.map (·.1) &&
    reply.engine.adapterId = weights.map (·.2)

def step (action : LoRAAction) : Option LoRA :=
  match action with
  | .admitBatch specs now => lora.admitBatch rules specs now
  | .acquire thread | .look thread | .dispatch thread _ | .reply thread _ | .latch thread
  | .release thread | .mark thread | .leave thread =>
    (lora.batches[thread]?).bind fun batch => lora.batchStep rules thread batch action
  | .start =>
    match lora.control, lora.phase with
    | .idle, .new => some { lora with phase := .loading, control := .starting }
    | _, _ => none
  | .started before after engine =>
    match lora.control with
    | .starting => some (lora.started rules before after engine)
    | _ => none
  | .activate manifest now =>
    match lora.control with
    | .idle =>
      if rules.validUpdate manifest = true ∧ lora.admitsManifest rules manifest = true ∧
          (rules.config.timeout now).isSome then
        some { lora with control := .activating manifest }
      else none
    | _ => none
  | .activated weights reply =>
    match lora.control with
    | .activating manifest =>
      if truthful weights reply = true then some (lora.activated rules manifest weights reply)
      else none
    | _ => none
  | .pause =>
    match lora.control, lora.phase with
    | .idle, .running => some { lora with phase := .pausing, control := .pausing }
    | _, _ => none
  | .drain =>
    if lora.active = 0 then
      match lora.control with
      | .pausing => some { lora with control := .drained }
      | .closing => some { lora with control := .stopping }
      | _ => none
    else none
  | .paused =>
    match lora.control with
    | .drained =>
      if lora.phase = .failed then some { lora with control := .idle }
      else some { lora with phase := .paused, control := .idle }
    | _ => none
  | .resume now =>
    match lora.control with
    | .idle =>
      if (rules.config.timeout now).isSome ∧ lora.phase = .paused ∧ lora.ack.isSome then
        some { lora with phase := .running }
      else none
    | _ => none
  | .close =>
    match lora.control with
    | .idle =>
      if lora.phase = .closed then none
      else some { lora with phase := .closing, control := .closing }
    | _ => none
  | .closed acknowledged =>
    match lora.control with
    | .stopping => some { lora with
        phase := if acknowledged then .closed else .failed
        control := .idle }
    | _ => none
  | .cancel =>
    match lora.control with
    | .drained => some { lora with control := .idle }
    | .closing => if lora.active = 0 then some { lora with control := .idle } else none
    | _ => none

end LoRA

def loraSystem (rules : LoRARules) : System LoRA LoRAAction where
  initial lora := lora = LoRA.fresh
  step lora action := lora.step rules action

end TinyDSV41.Serving
