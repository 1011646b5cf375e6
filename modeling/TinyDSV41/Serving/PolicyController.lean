/-
**The policy controllers: one model behind a sampler lock and an admission gate.**

`PyTorchPolicyController` samples in its own process; `VLLMPolicyController` asks an actor, and keeps for
every request what is known of its sampling. Calls run in threads of their own: a call is admitted while
the controller is running, waits for the sampler lock, and samples. The control operations exclude each
other; `pause` and `close` wait until no admitted call is left.

* `ServingRules.checkArtifact`, `ServingRules.checkLoad`, `ServingRules.checkSample` — the checks of
  artifacts and of the actor's answers.
* `Server.step` — the steps of the calls and of the control operations, for both controllers.
* `serverSystem` — the runs of a controller from its construction.

A refused request changes nothing and is no step. What a model or an actor makes of a request is given
from outside: an answer or none, and the weights that it holds after a load; a load acknowledges the
weights that it leaves.
-/

import TinyDSV41.Lib.Transition
import TinyDSV41.Lib.Threads
import TinyDSV41.Serving.Policy

namespace TinyDSV41.Serving

open Lib
open Relay (Id)

/-! ### Rules, requests and answers -/

inductive ServingKind
  | pytorch
  | vllm
deriving DecidableEq

/-- The configuration of the rollout, as far as the controllers read it. -/
structure ServingConfig where
  temperature : ℚ
  maxNewTokens : ℕ
  maxModelLen : ℕ
deriving DecidableEq

/-- What a controller is built with: its configuration and identities, the digests, the checks of an
artifact against the mounted files, the conversation of a payload under a policy, and its budget. -/
structure ServingRules (Payload : Type) where
  kind : ServingKind
  config : ServingConfig
  identities : List (String × String)
  sha256 : String → String
  mounted : Artifact → Bool
  context : Payload → Policy → Option (List ℕ)
  maxTokens : Payload → ℕ
  evidenceDigest : Payload → String

/-- The counts of the replayed graphs, where they are integers. -/
structure GraphMetrics where
  before : Option ℤ
  after : Option ℤ
  delta : Option ℤ
  captured : Option ℤ

/-- A sampled response; the metrics and the receipt of the engine are the actor's. -/
structure SampleReply where
  contextTokenIds : List ℕ
  actionTokenIds : List ℕ
  behaviorLogProbs : List ℚ
  finishReason : String
  stopTokenCount : ℕ
  logprobConvention : String
  metrics : GraphMetrics
  loadedPolicyAck : Option PolicyAck

/-- The checks of `Sample`. -/
def SampleReply.valid (sample : SampleReply) : Bool :=
  1 ≤ sample.contextTokenIds.length && 1 ≤ sample.actionTokenIds.length &&
  sample.actionTokenIds.length = sample.behaviorLogProbs.length &&
  sample.behaviorLogProbs.all (· ≤ 1 / 1000000) &&
  ["eos", "stop", "length"].contains sample.finishReason &&
  sample.stopTokenCount ≤ sample.actionTokenIds.length

/-- The graphs were captured, and replayed where more than one token was sampled. -/
def GraphMetrics.complete (metrics : GraphMetrics) (tokens : ℕ) : Bool :=
  match metrics.before, metrics.after, metrics.delta, metrics.captured with
  | some before, some after, some delta, some captured =>
    0 ≤ before && 0 ≤ after && 0 ≤ delta && after - before = delta && 1 ≤ captured &&
      (tokens ≤ 1 || 1 ≤ delta)
  | _, _, _, _ => false

/-- The acknowledgements of a load: `load_policy_artifact` gives the first, an actor all three. -/
structure LoadAcks where
  ack : Option PolicyAck
  activation : Option PolicyAck
  engine : Option PolicyAck

/-- `training_evidence`. -/
structure Evidence where
  requestId : Id
  requestPayloadSha256 : String
  policy : Policy
  contextTokenIds : List ℕ
  actionTokenIds : List ℕ
  behaviorLogProbs : List ℚ
  finishReason : String
  stopTokenCount : ℕ

namespace ServingRules

variable {Payload : Type} (rules : ServingRules Payload)

/-- `_check_artifact`, behind the policy and the artifact that are active. -/
def checkArtifact (active : Option (Policy × Artifact)) (artifact : Artifact) : Option Policy :=
  (Policy.of rules.identities rules.sha256 artifact).filter fun candidate =>
    candidate.temperature = rules.config.temperature && rules.mounted artifact &&
    active.all fun active =>
      candidate.lineage = active.1.lineage && active.1.version < candidate.version &&
      artifact.identity = active.2.identity && candidate.identities = active.1.identities

/-- The checks of `_load`. -/
def checkLoad (artifact : Artifact) (acks : LoadAcks) : Bool :=
  match rules.kind with
  | .pytorch => acks.ack = some artifact.ack
  | .vllm => acks.ack = some artifact.ack && acks.activation = some artifact.ack &&
      acks.engine = some artifact.ack

/-- A load acknowledges the weights that it leaves. -/
def truthful (weights : Option PolicyAck) (acks : LoadAcks) : Bool :=
  match rules.kind with
  | .pytorch => acks.ack = weights
  | .vllm => acks.engine = weights

/-- The checks of a sampled response against its prompt and the acknowledged policy. -/
def checkSample (prompt : List ℕ) (ack : Option PolicyAck) (sample : SampleReply) : Bool :=
  sample.valid && match rules.kind with
  | .pytorch => true
  | .vllm => sample.metrics.complete sample.actionTokenIds.length &&
      sample.contextTokenIds = prompt && sample.logprobConvention = "sampled_distribution" &&
      sample.loadedPolicyAck = ack

end ServingRules

/-! ### The state -/

/-- `_state`. -/
inductive ServingState
  | new
  | loading
  | running
  | paused
  | failed
  | closed
deriving DecidableEq

/-- `sampler_outcome`. -/
inductive SamplerOutcome
  | notAdmitted
  | unknown
  | completed
deriving DecidableEq

/-- What the vLLM controller keeps of the sampling of a request. -/
structure Binding where
  requestPayloadSha256 : String
  policyAck : PolicyAck
  outcome : SamplerOutcome
deriving DecidableEq

/-- What a call was asked for: `generate` or `sample_tokens`. -/
inductive Entry (Payload : Type)
  | generate (payload : Payload)
  | sampleTokens (maxTokens : ℕ) (temperature : ℚ)

inductive CallResult
  | completion (evidence : Evidence)
  | tokens (sample : SampleReply)

inductive CallPlace
  /-- Admitted, and waiting for the sampler lock. -/
  | waiting
  /-- It has the lock. -/
  | holding
  /-- It is about to sample. -/
  | marked
  /-- It samples. -/
  | calling
  /-- The actor has not answered, and the failure is not recorded yet. -/
  | lost
  /-- The response is checked. -/
  | sampled (sample : SampleReply)
  /-- The outcome of the sampling is recorded. -/
  | completed (sample : SampleReply)
  /-- The result is there. -/
  | finished (result : CallResult)
  /-- An exception was raised in the body of the lock. -/
  | broken
  /-- The exception has left the lock. -/
  | raising
  /-- It has found no recorded failure. -/
  | recording
  /-- The call is about to leave the gate. -/
  | leaving (result : Option CallResult)
  /-- The call has ended. -/
  | over (result : Option CallResult)

def CallPlace.locked : CallPlace → Bool
  | .holding | .marked | .calling | .lost | .sampled _ | .completed _ | .finished _ | .broken => true
  | _ => false

def CallPlace.admitted : CallPlace → Bool
  | .over _ => false
  | _ => true

/-- A call with the policy it was admitted under. -/
structure Call (Payload : Type) where
  entry : Entry Payload
  requestId : Id
  policy : Policy
  prompt : List ℕ
  place : CallPlace

/-- What a call counts for in `_active`. -/
def Call.weight {Payload : Type} (call : Call Payload) : ℕ := if call.place.admitted then 1 else 0

inductive ServingControl
  | idle
  /-- `start` or `activate` checks an artifact. -/
  | checking (artifact : Artifact) (initial : Bool)
  | loading (artifact : Artifact) (candidate : Policy) (initial : Bool)
  /-- The load has succeeded, and its thread has ended. -/
  | loaded
  /-- `pause` waits for the drain. -/
  | pausing
  /-- `pause` has seen the drain. -/
  | drained
  /-- `close` waits for the drain. -/
  | closing
  /-- `close` stops the actor. -/
  | stopping

inductive ServingEvent
  | admitted (thread : ℕ) (requestId : Id)
  | issued (thread : ℕ) (requestId : Id)
  | returned (thread : ℕ) (requestId : Id)
  /-- The actor has not answered: the outcome is unknown. -/
  | uncertain (thread : ℕ)
  /-- A load has failed, or the waiter of one was cancelled. -/
  | updateFailed
deriving DecidableEq

/-- A controller, the weights of its model, and the history. -/
structure Server (Payload : Type) where
  state : ServingState
  active : ℕ
  drained : Bool
  seen : List Id
  current : Option (Policy × Artifact)
  ack : Option PolicyAck
  actorFailure : Option Bool
  requestSampling : AList fun _ : Id => Binding
  control : ServingControl
  samplerLock : Option ℕ
  calls : List (Call Payload)
  weights : Option PolicyAck
  log : List ServingEvent

def Server.fresh (Payload : Type) : Server Payload :=
  ⟨.new, 0, false, [], none, none, none, ∅, .idle, none, [], none, []⟩

/-! ### Steps -/

/-- A step of a call, of the model or of a control operation. -/
inductive ServingAction (Payload : Type)
  | generate (payload : Payload) (requestId : Id)
  | sampleTokens (prompt : List ℕ) (maxTokens : ℕ) (temperature : ℚ) (requestId : Id)
  | acquire (thread : ℕ)
  /-- The request is marked, or its model checked, before it samples. -/
  | mark (thread : ℕ) (sound : Bool)
  | dispatch (thread : ℕ) (sent : Bool)
  | reply (thread : ℕ) (sample : Option SampleReply)
  | recordLost (thread : ℕ)
  | complete (thread : ℕ)
  | finish (thread : ℕ) (sound : Bool)
  | release (thread : ℕ)
  | look (thread : ℕ)
  | record (thread : ℕ)
  | leave (thread : ℕ)
  | start (artifact : Artifact)
  | activate (artifact : Artifact)
  | check
  | loaded (weights : Option PolicyAck) (acks : Option LoadAcks)
  | settle (cancelled : Bool)
  | pause
  | drain
  | paused (cancelled : Bool)
  | resume
  | close
  | stop (cancelled : Bool)
  | stopped (acknowledged : Bool)

namespace Server

variable {Payload : Type} (rules : ServingRules Payload) (server : Server Payload)

def move (thread : ℕ) (call : Call Payload) (place : CallPlace) : List (Call Payload) :=
  server.calls.set thread { call with place := place }

/-- What is kept of a request that `generate` has bound. -/
def bind (payload : Payload) (requestId : Id) (policy : Policy) : AList fun _ : Id => Binding :=
  match rules.kind with
  | .pytorch => server.requestSampling
  | .vllm => server.requestSampling.insert requestId
      ⟨rules.evidenceDigest payload, policy.ack, .notAdmitted⟩

def context (payload : Payload) (policy : Policy) : Option (List ℕ) :=
  (rules.context payload policy).filter fun prompt =>
    match rules.kind with
    | .pytorch => true
    | .vllm => prompt.length + rules.maxTokens payload ≤ rules.config.maxModelLen

/-- The admission of `generate`; the vLLM controller keeps what it has bound of a request that it
rejects, and the PyTorch controller does not change. -/
def generate (payload : Payload) (requestId : Id) : Option (Server Payload) :=
  match server.current with
  | none => none
  | some (policy, _) =>
    if server.state = .running ∧ requestId ∉ server.seen then
      match context rules payload policy with
      | some prompt => some { server with
          requestSampling := server.bind rules payload requestId policy
          seen := server.seen ++ [requestId]
          active := server.active + 1
          calls := server.calls ++ [⟨.generate payload, requestId, policy, prompt, .waiting⟩]
          log := server.log ++ [.admitted server.calls.length requestId] }
      | none => some { server with
          requestSampling := server.bind rules payload requestId policy
          calls := server.calls ++ [⟨.generate payload, requestId, policy, [], .over none⟩] }
    else none

/-- The admission of `sample_tokens`. -/
def sampleTokens (prompt : List ℕ) (maxTokens : ℕ) (temperature : ℚ) (requestId : Id) :
    Option (Server Payload) :=
  match server.current with
  | none => none
  | some (policy, _) =>
    if rules.kind = .vllm ∧ server.state = .running ∧ requestId ∉ server.seen ∧
        temperature = rules.config.temperature ∧ prompt ≠ [] ∧ 1 ≤ maxTokens ∧
        maxTokens ≤ rules.config.maxNewTokens ∧ prompt.length + maxTokens ≤ rules.config.maxModelLen then
      some { server with
        seen := server.seen ++ [requestId]
        active := server.active + 1
        calls := server.calls ++ [⟨.sampleTokens maxTokens temperature, requestId, policy, prompt, .waiting⟩]
        log := server.log ++ [.admitted server.calls.length requestId] }
    else none

def outcome (call : Call Payload) (outcome : SamplerOutcome) : AList fun _ : Id => Binding :=
  match rules.kind, call.entry, server.requestSampling.lookup call.requestId with
  | .vllm, .generate _, some binding =>
    server.requestSampling.insert call.requestId { binding with outcome := outcome }
  | _, _, _ => server.requestSampling

def result (call : Call Payload) (sample : SampleReply) : CallResult :=
  match call.entry with
  | .sampleTokens _ _ => .tokens sample
  | .generate payload => .completion {
      requestId := call.requestId
      requestPayloadSha256 := rules.evidenceDigest payload
      policy := call.policy
      contextTokenIds := sample.contextTokenIds
      actionTokenIds := sample.actionTokenIds
      behaviorLogProbs := sample.behaviorLogProbs
      finishReason := sample.finishReason
      stopTokenCount := sample.stopTokenCount }

def receive (thread : ℕ) (call : Call Payload) (sample : Option SampleReply) : Server Payload :=
  match sample with
  | some sample => { server with
      calls := server.move thread call
        (if rules.checkSample call.prompt server.ack sample = true then .sampled sample else .broken)
      log := server.log ++ [.returned thread call.requestId] }
  | none =>
    match rules.kind with
    | .pytorch => { server with calls := server.move thread call .broken }
    | .vllm => { server with
        calls := server.move thread call .lost
        log := server.log ++ [.uncertain thread] }

def callStep (thread : ℕ) (call : Call Payload) : ServingAction Payload → Option (Server Payload)
  | .acquire _ =>
    match call.place, server.samplerLock with
    | .waiting, none => some { server with
        samplerLock := some thread
        calls := server.move thread call .holding }
    | _, _ => none
  | .mark _ sound =>
    match call.place with
    | .holding =>
      -- The PyTorch controller checks its model; the vLLM controller cannot fail here.
      if sound = true ∨ rules.kind = .vllm then some { server with
        requestSampling := server.outcome rules call .unknown
        calls := server.move thread call .marked }
      else some { server with calls := server.move thread call .broken }
    | _ => none
  | .dispatch _ sent =>
    match call.place with
    | .marked =>
      if sent = true then some { server with
        calls := server.move thread call .calling
        log := server.log ++ [.issued thread call.requestId] }
      else some (server.receive rules thread call none)
    | _ => none
  | .reply _ sample =>
    match call.place with
    | .calling => some (server.receive rules thread call sample)
    | _ => none
  | .recordLost _ =>
    match call.place with
    | .lost => some { server with
        actorFailure := some true
        state := .failed
        drained := false
        calls := server.move thread call .broken }
    | _ => none
  | .complete _ =>
    match call.place with
    | .sampled sample => some { server with
        requestSampling := server.outcome rules call .completed
        calls := server.move thread call (.completed sample) }
    | _ => none
  | .finish _ sound =>
    match call.place with
    | .completed sample => some { server with
        calls := server.move thread call
          (if sound = true then .finished (result rules call sample) else .broken) }
    | _ => none
  | .release _ =>
    match call.place with
    | .finished result => some { server with
        samplerLock := none
        calls := server.move thread call (.leaving (some result)) }
    | .broken => some { server with
        samplerLock := none
        calls := server.move thread call (match rules.kind with
          | .pytorch => .leaving none
          | .vllm => .raising) }
    | _ => none
  | .look _ =>
    match call.place with
    | .raising => some { server with
        calls := server.move thread call
          (if server.actorFailure.isNone then .recording else .leaving none) }
    | _ => none
  | .record _ =>
    match call.place with
    | .recording => some { server with
        actorFailure := some false
        state := .failed
        drained := false
        calls := server.move thread call (.leaving none) }
    | _ => none
  | .leave _ =>
    match call.place with
    | .leaving result => some { server with
        active := server.active - 1
        calls := server.move thread call (.over result) }
    | _ => none
  | _ => none

/-- The check of `_load`; `start` fails with it, and `activate` raises its error. -/
def check (artifact : Artifact) (initial : Bool) : Server Payload :=
  match rules.checkArtifact server.current artifact with
  | some candidate => { server with weights := none, control := .loading artifact candidate initial }
  | none =>
    if initial = true then { server with
      state := .failed
      control := .idle
      log := server.log ++ [.updateFailed] }
    else { server with control := .idle }

/-- The end of a load; one that fails leaves unknown weights. -/
def load (artifact : Artifact) (candidate : Policy) (initial : Bool) (weights : Option PolicyAck)
    (acks : Option LoadAcks) : Server Payload :=
  if (acks.any (rules.checkLoad artifact ·)) = true then { server with
    current := some (candidate, artifact)
    ack := some artifact.ack
    state := if initial = true then .running else .paused
    weights := weights
    control := .loaded }
  else { server with
    state := .failed
    weights := weights
    control := .idle
    log := server.log ++ [.updateFailed] }

def controlStep : ServingAction Payload → Option (Server Payload)
  | .start artifact =>
    match server.control, server.state with
    | .idle, .new => some { server with state := .loading, control := .checking artifact true }
    | _, _ => none
  | .activate artifact =>
    match server.control, server.state with
    | .idle, .paused =>
      if server.drained = true ∧ server.active = 0 then
        some { server with drained := false, control := .checking artifact false }
      else none
    | _, _ => none
  | .check =>
    match server.control with
    | .checking artifact initial => some (server.check rules artifact initial)
    | _ => none
  | .loaded weights acks =>
    match server.control with
    | .loading artifact candidate initial =>
      if (acks.all (rules.truthful weights ·)) = true then
        some (server.load rules artifact candidate initial weights acks)
      else none
    | _ => none
  | .settle cancelled =>
    match server.control with
    | .loaded =>
      if cancelled = true then some { server with
        state := .failed
        control := .idle
        log := server.log ++ [.updateFailed] }
      else some { server with control := .idle }
    | _ => none
  | .pause =>
    match server.control with
    | .idle =>
      if server.state = .running ∨ server.state = .paused then
        some { server with state := .paused, drained := false, control := .pausing }
      else none
    | _ => none
  | .drain =>
    match server.control with
    | .pausing =>
      if server.active = 0 then
        if rules.kind = .vllm ∧ (server.actorFailure.isSome ∨ server.state = .failed) then
          some { server with control := .idle }
        else some { server with control := .drained }
      else none
    | _ => none
  | .paused cancelled =>
    match server.control with
    | .drained => some { server with
        drained := if cancelled = true then server.drained else true
        control := .idle }
    | _ => none
  | .resume =>
    match server.control, server.state with
    | .idle, .paused =>
      if server.active = 0 then some { server with state := .running, drained := false }
      else none
    | _, _ => none
  | .close =>
    match server.control with
    | .idle => some { server with state := .closed, drained := false, control := .closing }
    | _ => none
  | .stop cancelled =>
    match server.control with
    | .closing =>
      if server.active = 0 then
        match rules.kind with
        | .pytorch => some { server with weights := none, control := .idle }
        | .vllm =>
          if cancelled = true then some { server with control := .idle }
          else some { server with control := .stopping }
      else none
    | _ => none
  | .stopped acknowledged =>
    match server.control with
    | .stopping =>
      if acknowledged = true then some { server with weights := none, control := .idle }
      else some { server with state := .failed, weights := none, control := .idle }
    | _ => none
  | _ => none

def step (action : ServingAction Payload) : Option (Server Payload) :=
  match action with
  | .generate payload requestId => server.generate rules payload requestId
  | .sampleTokens prompt maxTokens temperature requestId =>
    server.sampleTokens rules prompt maxTokens temperature requestId
  | .acquire thread | .mark thread _ | .dispatch thread _ | .reply thread _ | .recordLost thread
  | .complete thread | .finish thread _ | .release thread | .look thread | .record thread
  | .leave thread =>
    (server.calls[thread]?).bind fun call => server.callStep rules thread call action
  | _ => server.controlStep rules action

end Server

def serverSystem {Payload : Type} (rules : ServingRules Payload) :
    System (Server Payload) (ServingAction Payload) where
  initial server := server = Server.fresh Payload
  step server action := server.step rules action

end TinyDSV41.Serving
