/-
**The loopback shim of a policy controller, and its failure receipts.**

A request is reserved once, with a file of its own; its handler calls `generate` of the controller, and
behind an exception it asks the controller for a receipt of what is known of the sampling. The shim
admits one request at a time, and it is quiesced before the policy changes.

* `failureIsTerminal`, `validateGenerationFailure` — what a receipt may say.
* `Server.generationFailureReceipt` — the receipt of the vLLM controller.
* `Loopback.step` — the handlers, the shim and the controller behind them.
-/

import TinyDSV41.Serving.PolicyController

namespace TinyDSV41.Serving

open Lib
open Relay (Id)

/-! ### Receipts -/

/-- `proof_kind`, by the outcome of the sampler. -/
def SamplerOutcome.proofKind : SamplerOutcome → String
  | .notAdmitted => "controller_rejected_before_sampler_dispatch"
  | .completed => "owned_vllm_final_request_output"
  | .unknown => "none"

structure FailureReceipt where
  schemaVersion : ℤ
  requestId : String
  requestPayloadSha256 : String
  policyAck : PolicyAck
  stage : String
  samplerOutcome : SamplerOutcome
  samplerDrained : Bool
  actualActorDrainProven : Bool
  drainScope : String
  proofKind : String
  automaticReplay : Bool
deriving DecidableEq

/-- `failure_is_terminal`. -/
def failureIsTerminal (receipt : FailureReceipt) : Bool :=
  receipt.samplerDrained && receipt.actualActorDrainProven &&
  (receipt.samplerOutcome = .notAdmitted &&
      receipt.proofKind = "controller_rejected_before_sampler_dispatch" ||
    receipt.samplerOutcome = .completed && receipt.proofKind = "owned_vllm_final_request_output")

/-- The stages: `[a-z0-9_]{1,64}`. -/
def isStage (text : String) : Bool :=
  1 ≤ text.toList.length && text.toList.length ≤ 64 &&
  text.toList.all fun char => char.isDigit || ('a' ≤ char && char ≤ 'z') || char = '_'

/-- `validate_generation_failure`, against the digest of the payload. -/
def validateGenerationFailure (receipt : FailureReceipt) (payloadDigest : String) (requestId : Id)
    (expected : Option PolicyAck) : Bool :=
  receipt.schemaVersion = 1 && receipt.requestId = requestId.text &&
  receipt.requestPayloadSha256 = payloadDigest && receipt.drainScope = "request" &&
  receipt.automaticReplay = false && isStage receipt.stage &&
  isDigest receipt.policyAck.digest && receipt.policyAck.lineage ≠ "" &&
  expected.all (receipt.policyAck = ·) &&
  if receipt.samplerOutcome = .unknown then
    receipt.proofKind = "none" && !receipt.samplerDrained && !receipt.actualActorDrainProven
  else failureIsTerminal receipt

namespace Server

variable {Payload : Type} (rules : ServingRules Payload) (server : Server Payload)

/-- What the vLLM controller says of a request that it has bound. -/
def receiptOf (binding : Binding) (requestId : Id) (stage : String) : FailureReceipt where
  schemaVersion := 1
  requestId := requestId.text
  requestPayloadSha256 := binding.requestPayloadSha256
  policyAck := binding.policyAck
  stage := stage
  samplerOutcome := binding.outcome
  samplerDrained := binding.outcome ≠ .unknown
  actualActorDrainProven := binding.outcome ≠ .unknown
  drainScope := "request"
  proofKind := binding.outcome.proofKind
  automaticReplay := false

/-- `generation_failure_receipt`; the PyTorch controller has none. -/
def generationFailureReceipt (payload : Payload) (requestId : Id) (stage : String) :
    Option FailureReceipt :=
  match rules.kind with
  | .pytorch => none
  | .vllm => ((server.requestSampling.lookup requestId).map (receiptOf · requestId stage)).filter
      (validateGenerationFailure · (rules.evidenceDigest payload) requestId none)

end Server

/-! ### The shim -/

/-- `_phase`. -/
inductive ShimPhase
  | new
  | running
  | quiescing
  | paused
  | loading
  | closed
deriving DecidableEq

/-- Where the handler of a reserved request is. -/
inductive HandlerPlace
  /-- It is about to call `generate`. -/
  | reserved
  /-- Its call is a thread of the controller. -/
  | generating (thread : ℕ)
  /-- `generate` has returned. -/
  | returned (thread : ℕ)
  /-- An exception was raised. -/
  | raised (thread : Option ℕ)
  /-- The answer is made, and the request is about to be released. -/
  | answered (thread : Option ℕ)
  | released (thread : Option ℕ)
deriving DecidableEq

def HandlerPlace.thread? : HandlerPlace → Option ℕ
  | .reserved => none
  | .generating thread | .returned thread => some thread
  | .raised thread | .answered thread | .released thread => thread

structure Handler (Payload : Type) where
  requestId : Id
  payload : Payload
  place : HandlerPlace

/-- A request counts in `_active` of the shim until it is released. -/
def Handler.weight {Payload : Type} (handler : Handler Payload) : ℕ :=
  match handler.place with
  | .released _ => 0
  | _ => 1

/-- The shim with its handlers and its controller. A receipt that was made is kept with the length of
the history of the controller at that time. -/
structure Loopback (Payload : Type) where
  server : Server Payload
  phase : ShimPhase
  active : ℕ
  files : List Id
  requests : List Id
  handlers : List (Handler Payload)
  made : List (FailureReceipt × ℕ)

def Loopback.fresh (Payload : Type) : Loopback Payload :=
  ⟨Server.fresh Payload, .new, 0, [], [], [], []⟩

/-- A step of the controller, of the shim or of a handler. -/
inductive LoopbackAction (Payload : Type)
  | server (action : ServingAction Payload)
  | start
  | reserve (requestId : Id) (payload : Payload)
  /-- The file of a request is created, and cannot be written. -/
  | spoil (requestId : Id)
  | generate (handler : ℕ)
  /-- `generate` has ended; an exception may not be an `Exception`. -/
  | collect (handler : ℕ) (fatal : Bool)
  /-- The completion is stored, checked and sent, or an exception is raised. -/
  | deliver (handler : ℕ) (sound : Bool)
  | fail (handler : ℕ) (stage : String)
  | release (handler : ℕ)
  | quiesce
  | phase (value : ShimPhase)
  | close

/-- The steps of the calls; the others belong to the control operations. -/
def ServingAction.ofCall {Payload : Type} : ServingAction Payload → Bool
  | .generate _ _ | .sampleTokens _ _ _ _ | .acquire _ | .mark _ _ | .dispatch _ _ | .reply _ _
  | .recordLost _ | .complete _ | .finish _ _ | .release _ | .look _ | .record _ | .leave _ => true
  | _ => false

/-- The steps of the requests behind the shim. -/
def LoopbackAction.ofRequest {Payload : Type} : LoopbackAction Payload → Bool
  | .server action => action.ofCall
  | .start | .quiesce | .phase _ | .close => false
  | _ => true

namespace Loopback

variable {Payload : Type} (rules : ServingRules Payload) (loopback : Loopback Payload)

def move (index : ℕ) (handler : Handler Payload) (place : HandlerPlace) : List (Handler Payload) :=
  loopback.handlers.set index { handler with place := place }

/-- A request may be reserved; its file must not be there. -/
def admits (requestId : Id) : Bool :=
  loopback.phase = .running && loopback.active = 0 && requestId ∉ loopback.files

/-- The handler calls `generate`; a refusal of the controller is an exception. -/
def call (index : ℕ) (handler : Handler Payload) : Loopback Payload :=
  match loopback.server.generate rules handler.payload handler.requestId with
  | some server => { loopback with
      server := server
      handlers := loopback.move index handler (.generating loopback.server.calls.length) }
  | none => { loopback with handlers := loopback.move index handler (.raised none) }

def failed (index : ℕ) (handler : Handler Payload) (stage : String) : Loopback Payload :=
  { loopback with
    made := loopback.made ++
      ((loopback.server.generationFailureReceipt rules handler.payload handler.requestId stage).map
        (·, loopback.server.log.length)).toList
    handlers := loopback.move index handler (.answered handler.place.thread?) }

def handlerStep (index : ℕ) (handler : Handler Payload) :
    LoopbackAction Payload → Option (Loopback Payload)
  | .generate _ =>
    match handler.place with
    | .reserved => some (loopback.call rules index handler)
    | _ => none
  | .collect _ fatal =>
    match handler.place with
    | .generating thread =>
      match (loopback.server.calls[thread]?).map Call.place with
      | some (.over (some _)) =>
        some { loopback with handlers := loopback.move index handler (.returned thread) }
      | some (.over none) =>
        if fatal = true then
          some { loopback with handlers := loopback.move index handler (.answered (some thread)) }
        else some { loopback with handlers := loopback.move index handler (.raised (some thread)) }
      | _ => none
    | _ => none
  | .deliver _ sound =>
    match handler.place with
    | .returned thread =>
      if sound = true then
        some { loopback with handlers := loopback.move index handler (.answered (some thread)) }
      else some { loopback with handlers := loopback.move index handler (.raised (some thread)) }
    | _ => none
  | .fail _ stage =>
    match handler.place with
    | .raised _ => some (loopback.failed rules index handler stage)
    | _ => none
  | .release _ =>
    match handler.place with
    | .answered thread => some { loopback with
        active := loopback.active - 1
        handlers := loopback.move index handler (.released thread) }
    | _ => none
  | _ => none

/-- One step; only a handler calls `generate`. -/
def step (action : LoopbackAction Payload) : Option (Loopback Payload) :=
  match action with
  | .server (.generate _ _) => none
  | .server action =>
    (loopback.server.step rules action).map fun server => { loopback with server := server }
  | .start =>
    if loopback.phase = .new then some { loopback with phase := .running } else none
  | .reserve requestId payload =>
    if loopback.admits requestId = true then some { loopback with
      files := loopback.files ++ [requestId]
      requests := loopback.requests ++ [requestId]
      active := loopback.active + 1
      handlers := loopback.handlers ++ [⟨requestId, payload, .reserved⟩] }
    else none
  | .spoil requestId =>
    if loopback.admits requestId = true then
      some { loopback with files := loopback.files ++ [requestId] }
    else none
  | .generate index | .collect index _ | .deliver index _ | .fail index _ | .release index =>
    (loopback.handlers[index]?).bind fun handler => loopback.handlerStep rules index handler action
  | .quiesce => some { loopback with phase := .quiescing }
  | .phase value =>
    if loopback.active = 0 ∧ (value = .paused ∨ value = .loading ∨ value = .running) then
      some { loopback with phase := value }
    else none
  | .close => if loopback.active = 0 then some { loopback with phase := .closed } else none

end Loopback

end TinyDSV41.Serving
