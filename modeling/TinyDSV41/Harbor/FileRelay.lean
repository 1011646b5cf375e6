/-
**`AsyncFileRelay.generate`, from await to await.**

A call is a coroutine: it runs from one await to the next, and may be cancelled at each of them. What it
asks of the disk, of the clock and of the outbox is given by its surroundings (`RelayEnv`): each of these
may raise. The calls of the relays of one output directory take turns, and the process may be stopped
anywhere within a turn; relays that are built later find the files again.

* `prepare`, `publish`, `poll` — the three parts of a call, each with what its `except` and its `finally`
  make of an exception.
* `readResponse` — what a response is taken for.
* `relaySystem` — the turns of all calls.

A link that raises is not made. What takes a request from the inbox, and what puts a response into the
outbox, are others.
-/

import TinyDSV41.Coordinator.GenerationFailure
import TinyDSV41.Harbor.ResponseLimits
import TinyDSV41.Harbor.TrialEvidence
import TinyDSV41.Lib.Cleanup

namespace TinyDSV41.Harbor

open Lib Lib.Script
open Script (lift perform raise)
open Coordinator (Value Mapping field isLiteral isBool ofJson provesClosure)

/-! ### Calls and their surroundings -/

/-- An exception: a `RelayError`, a `CancelledError`, a `FileExistsError`, or another one. -/
inductive RelayRaised
  | relay (message : String)
  | cancelled
  | exists
  | other
deriving DecidableEq

/-- The arguments of `generate`, with the policy that its relay expects. A timeout that is no finite
number is missing. -/
structure GenerateCall where
  id : String
  payload : Json
  timeout : Option ℚ
  expectedPolicyAck : Option Value

inductive RelayCall
  | await
  | directories
  | encodeRequest
  | openTemporary
  | writeTemporary
  | link
  | pollDirectories
  | encodeResponse
  | unlinkTemporary
deriving DecidableEq

/-- The files that `write_new` creates. -/
inductive NewFile
  | request
  | response
  | state
deriving DecidableEq

/-- What becomes of `write_new` where there is no such file: nothing is created, the file is left torn, or it
is written. -/
inductive Creation
  | refused
  | torn
  | written

/-- What `bounded_response` finds in the outbox. -/
inductive OutboxFile
  | missing
  | unreadable
  | file (regular : Bool) (size : ℕ) (data : List UInt8) (unchanged : Bool)

/-- What a turn meets: the clocks, and what the calls do. -/
structure RelayEnv where
  call : RelayCall → Except RelayRaised Unit
  create : NewFile → Creation
  now : ℚ
  pollNow : ℚ
  unix : ℚ
  deadlineText : List Char
  outbox : OutboxFile

/-- `strict_json` and `evidence_digest`. -/
structure RelayRules where
  strictJson : List UInt8 → Except RelayRaised Json
  evidenceDigest : Json → String

structure Frame where
  deadline : ℚ
  created : Bool
  published : Bool
  state : RelayState
  failureReceipt : Option Json

/-- The locals at the `try`. -/
def Frame.fresh (deadline : ℚ) : Frame := ⟨deadline, false, false, .errorBeforePublication, none⟩

/-- The files of the output directory, the requests that were linked into the inbox, and the responses that
were read for them. A torn state file has no record. -/
structure RelayFiles where
  requests : List (String × Json)
  responses : List String
  states : List (String × Option Mapping)
  published : List String
  read : List (String × Json)

structure Desk where
  files : RelayFiles
  frame : Frame

inductive RelayOp
  | deadline (deadline : ℚ)
  | request
  | created
  | link
  | published
  | state (state : RelayState)
  | receipt (receipt : Json)
  | read (response : Json)
  | response
  | record (content : Option Mapping)

namespace Desk

variable (call : GenerateCall) (desk : Desk)

def apply : RelayOp → Desk
  | .deadline deadline => { desk with frame := .fresh deadline }
  | .request => { desk with files := { desk.files with requests := desk.files.requests ++ [(call.id, call.payload)] } }
  | .created => { desk with frame := { desk.frame with created := true } }
  | .link => { desk with files := { desk.files with published := desk.files.published ++ [call.id] } }
  | .published => { desk with frame := { desk.frame with published := true } }
  | .state state => { desk with frame := { desk.frame with state := state } }
  | .receipt receipt => { desk with frame := { desk.frame with failureReceipt := some receipt } }
  | .read response => { desk with files := { desk.files with read := desk.files.read ++ [(call.id, response)] } }
  | .response => { desk with files := { desk.files with responses := desk.files.responses ++ [call.id] } }
  | .record content => { desk with files := { desk.files with states := desk.files.states ++ [(call.id, content)] } }

def holds : NewFile → Bool
  | .request => call.id ∈ desk.files.requests.map Prod.fst
  | .response => call.id ∈ desk.files.responses
  | .state => call.id ∈ desk.files.states.map Prod.fst

end Desk

/-! ### Records and responses -/

def stateRecord (call : GenerateCall) (frame : Frame) : Mapping :=
  [("id", .text call.id), ("published", .bool frame.published), ("state", .text frame.state.text),
    ("replayed", .bool false), ("remote_cancellation_proven", .bool false)] ++
  match frame.failureReceipt with
  | none => []
  | some receipt => [("generation_failure", .text "validated"), ("failure_receipt", ofJson receipt),
      ("request_payload_sha256", ofJson (field receipt "request_payload_sha256"))]

def succeeds (response : Json) : Bool :=
  isBool (field response "ok") true && (field response "response").isObject

def negativeKeys : List String := ["id", "ok", "error", "generation_failure"]

def isNegative (response : Json) : Bool :=
  isBool (field response "ok") false && (field response "error").isText &&
    response.keys.all (· ∈ negativeKeys.map text)

/-- A well-formed success response for a request. -/
structure Success (id : String) (response : Json) : Prop where
  object : response.isObject = true
  named : isLiteral (field response "id") id = true
  completed : succeeds response = true
  unfailed : response.get "generation_failure" = none

/-- A validated receipt in a response proves that a request of this id and payload has ended. -/
def Proven (rules : RelayRules) (id : String) (payload response : Json) : Prop :=
  ∃ expected failure receipt, response.get "generation_failure" = some failure ∧
    Coordinator.validateGenerationFailure (rules.evidenceDigest payload) id expected failure = .ok receipt ∧
    provesClosure receipt = true

/-- What is known of a request: it was not published, a success response for it was read, or a receipt
that proves its end. -/
def Resolves (rules : RelayRules) (files : RelayFiles) (id : String) : Prop :=
  id ∉ files.published ∨
  (∃ response, (id, response) ∈ files.read ∧ Success id response) ∨
  ∃ payload response, (id, payload) ∈ files.requests ∧ (id, response) ∈ files.read ∧
    Proven rules id payload response

/-- The files change as the relay promises: a request is created once, it is linked once and before its
record, and a certain record is one of a request that is resolved. -/
def relaying (rules : RelayRules) (call : GenerateCall) : Storage Desk RelayOp where
  apply := Desk.apply call
  legal desk
    | .request => call.id ∉ desk.files.requests.map Prod.fst
    | .link => call.id ∈ desk.files.requests.map Prod.fst ∧ call.id ∉ desk.files.published ∧
        call.id ∉ desk.files.states.map Prod.fst
    | .record content => call.id ∈ desk.files.requests.map Prod.fst ∧
        ∀ record, content = some record → Coordinator.requestUncertain (some record) = false →
          Resolves rules desk.files call.id
    | _ => True

/-! ### The parts of a call -/

/-- A turn ends at an await or with the response. -/
inductive Progress
  | waits
  | returns (response : Json)

variable (rules : RelayRules) (call : GenerateCall) (env : RelayEnv)

abbrev RelayScript (Value : Type) := Script (relaying rules call) RelayRaised Value

/-- `write_new`. -/
def writeNew (file : NewFile) (torn written : RelayOp) : RelayScript rules call Unit := do
  let desk ← Script.observe
  if desk.holds call file = true then raise .exists
  else
    match env.create file with
    | .refused => raise .other
    | .torn => do
        perform torn
        raise .other
    | .written => perform written

/-- The `finally` of `generate`. -/
def recordState : RelayScript rules call Unit := do
  let desk ← Script.observe
  lift (if desk.frame.created then env.call .unlinkTemporary else .ok ())
  writeNew rules call env .state (.record none) (.record (some (stateRecord call desk.frame)))

/-- The `except` of `generate`, which raises again. -/
def cancelledState (raised : RelayRaised) : RelayScript rules call Progress := do
  let desk ← Script.observe
  if raised = .cancelled then
    perform (.state (if desk.frame.published then .cancelledOutcomeUnknown else .cancelledBeforePublication))
    raise raised
  else raise raised

/-- The `try` around a part of `generate`: its `finally` runs behind an exception and behind the response. -/
def guarded (body : RelayScript rules call Progress) : RelayScript rules call Progress := do
  let progress ← attempt body fun raised =>
    lastly (cancelledState rules call raised) (recordState rules call env)
  match progress with
  | .waits => pure .waits
  | .returns response => do
      recordState rules call env
      pure (.returns response)

def requestOf (timeout : ℚ) : Json :=
  object [("id", literal call.id), ("operation", literal "generate"), ("payload", call.payload),
    ("deadline_unix", .float (env.unix + timeout) env.deadlineText)]

/-- `generate` from its first await to the one before the publication. -/
def prepare (timeout : ℚ) : RelayScript rules call Progress := do
  lift (env.call .await)
  lift (env.call .directories)
  perform (.deadline (env.now + timeout))
  lift (require (isRequestId call.id = true) (.relay "Expected a durable 32-hex request identity"))
  lift (require ((requestOf call env timeout).finite = true) .other)
  lift (env.call .encodeRequest)
  lift (require ((jsonBytes (requestOf call env timeout)).length ≤ maxRequestBytes)
    (.relay "Generation request exceeds byte budget"))
  writeNew rules call env .request .request .request
  guarded rules call env do
    lift (env.call .openTemporary)
    perform .created
    lift (env.call .writeTemporary)
    pure .waits

/-- `bounded_response`; none where there is no file. -/
def boundedResponseFile : OutboxFile → Except RelayRaised (Option Json)
  | .missing => .ok none
  | .unreadable => .error .other
  | .file regular size data unchanged => do
      require (regular = true ∧ 0 < size ∧ size ≤ maxResponseBytes)
        (.relay "Relay response is not a bounded regular file")
      require (data.length = size ∧ unchanged = true) (.relay "Relay response changed while reading")
      let response ← rules.strictJson data
      return some response

def readResponse (response : Json) : RelayScript rules call Progress := do
  lift (require (response.isObject = true ∧ isLiteral (field response "id") call.id = true)
    (.relay "Relay response identity differs"))
  if succeeds response = true then
    match response.get "generation_failure" with
    | some _ => raise (.relay "A successful completion cannot carry failure closure evidence")
    | none => do
        perform (.state .responseReceived)
        pure (.returns (field response "response"))
  else do
    lift (require (isNegative response = true) (.relay "Relay returned an invalid negative completion"))
    match response.get "generation_failure" with
    | none => raise (.relay "Relay returned no successful model completion")
    | some failure =>
      match Coordinator.validateGenerationFailure (rules.evidenceDigest call.payload) call.id
          call.expectedPolicyAck failure with
      | .error _ => raise (.relay "Relay failure closure evidence is unproven")
      | .ok receipt => do
          perform (.receipt receipt)
          if provesClosure receipt = true then
            perform (.state .terminalFailureReceived)
            raise (.relay "Relay returned no successful model completion")
          else raise (.relay "Relay returned no successful model completion")

def pollOnce : RelayScript rules call Progress := do
  let desk ← Script.observe
  if env.pollNow < desk.frame.deadline then
    lift (env.call .pollDirectories)
    let response ← lift (boundedResponseFile rules env.outbox)
    match response with
    | none => pure .waits
    | some response => do
        perform (.read response)
        lift (env.call .encodeResponse)
        writeNew rules call env .response .response .response
        readResponse rules call response
  else do
    perform (.state .deadlineExpiredOutcomeUnknown)
    raise (.relay "Relay deadline expired; request was not replayed")

/-- `generate` from the await before the publication to the first one of its loop. -/
def publish : RelayScript rules call Progress :=
  guarded rules call env do
    lift (env.call .await)
    lift (env.call .directories)
    let desk ← Script.observe
    lift (require (env.now < desk.frame.deadline) (.relay "Generation deadline expired before publication"))
    lift (env.call .link)
    perform .link
    perform .published
    perform (.state .publishedOutcomeUnknown)
    pollOnce rules call env

/-- `generate` from an await of its loop to the next one. -/
def poll : RelayScript rules call Progress :=
  guarded rules call env do
    lift (env.call .await)
    pollOnce rules call env

/-! ### Turns -/

inductive CallPlace
  | entered (call : GenerateCall) (timeout : ℚ)
  | waiting (call : GenerateCall) (frame : Frame)
  | polling (call : GenerateCall) (frame : Frame)
  | ended

/-- The files, and the calls of the process. -/
structure RelayWorld where
  files : RelayFiles
  calls : List CallPlace

inductive RelayAction
  /-- `generate` is called. -/
  | call (call : GenerateCall)
  /-- A call takes its turn. -/
  | turn (thread : ℕ) (env : RelayEnv)
  /-- The process is stopped within a turn, after some of its operations. -/
  | stop (thread : ℕ) (env : RelayEnv) (count : ℕ)

namespace RelayWorld

variable (world : RelayWorld)

/-- The check of the timeout, before the first await. -/
def admittedTimeout (timeout : Option ℚ) : Option ℚ := timeout.filter fun timeout => 0 < timeout ∧ timeout ≤ 600

/-- What a turn does: the desk it starts from, its operations, and the place where it leaves the call. -/
def turn (place : CallPlace) (env : RelayEnv) : Option (GenerateCall × Desk × List RelayOp × CallPlace) :=
  let ends (call : GenerateCall) (desk : Desk) (script : RelayScript rules call Progress)
      (next : Frame → CallPlace) : GenerateCall × Desk × List RelayOp × CallPlace :=
    (call, desk, (script.run desk).1, match (script.run desk).2 with
      | .ok .waits => next ((relaying rules call).replay desk (script.run desk).1).frame
      | _ => .ended)
  match place with
  | .entered call timeout =>
    some (ends call ⟨world.files, .fresh 0⟩ (prepare rules call env timeout) (.waiting call))
  | .waiting call frame => some (ends call ⟨world.files, frame⟩ (publish rules call env) (.polling call))
  | .polling call frame => some (ends call ⟨world.files, frame⟩ (poll rules call env) (.polling call))
  | .ended => none

def step : RelayAction → Option RelayWorld
  | .call call => (admittedTimeout call.timeout).map fun timeout =>
    { world with calls := world.calls ++ [.entered call timeout] }
  | .turn thread env => do
      let place ← world.calls[thread]?
      let (call, desk, ops, next) ← world.turn rules place env
      return { files := ((relaying rules call).replay desk ops).files, calls := world.calls.set thread next }
  | .stop thread env count => do
      let place ← world.calls[thread]?
      let (call, desk, ops, _) ← world.turn rules place env
      return { files := ((relaying rules call).replay desk (ops.take count)).files
               calls := world.calls.map fun _ => .ended }

end RelayWorld

def relaySystem : System RelayWorld RelayAction where
  initial world := world = ⟨⟨[], [], [], [], []⟩, []⟩
  step world action := world.step rules action

end TinyDSV41.Harbor
