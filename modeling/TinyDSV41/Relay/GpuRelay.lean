/-
**The GPU relay: its journal of dispatched requests and the threads that work on them.**

Each handler runs under the lock of the relay and writes at most one file of `requests`; a start reads
all of them and writes those that it finds running. The process can be stopped between two writes, and
started again with other settings. What the payload checks and the digest compute does not matter
here; both are given (`Rules`).

* `RelayState.admitGeneration`, `RelayState.cancelGeneration`, `RelayState.finishGeneration`,
  `RelayState.acknowledgeDelivery` — the handlers.
* `conclude` — what `execute_generation` makes of an answer of the model service.
* `recover` — what a start makes of the journal.
* `gpuSystem` — the runs of the relay over starts and stops.

A disk that refuses a write is not modelled, nor is a poll, which only reads.
-/

import TinyDSV41.Lib.Transition
import TinyDSV41.Lib.Journal
import TinyDSV41.Relay.Basic
import Mathlib.Data.Finset.Card

namespace TinyDSV41.Relay

open Lib

/-! ### Records -/

inductive Status
  | running
  | uncertain
  | finished
  | failed
  | cancelled
deriving DecidableEq

/-- A record of the journal. A tombstone has no payload. -/
structure Record where
  id : Id
  status : Status
  bootId : ℕ
  payloadSha256 : Option String
  deliveryAcknowledged : Bool
deriving DecidableEq

/-- `requests`, or `gpu_journal`. -/
abbrev Journal := AList fun _ : Id => Record

/-- `atomic_write` of a record. -/
structure Write where
  path : Id
  record : Record

/-- The thread a generation belongs to: a worker that is or is not started yet, or its handler. -/
inductive Origin
  | submit (started : Bool)
  | generate
  | echo
deriving DecidableEq

/-- An entry of `active_generations`, with the thread that works on it. -/
structure Generation where
  cancel : Bool
  dispatched : Bool
  deadline : ℚ
  origin : Origin

/-- The terminal value of a submitted generation. -/
inductive Answer
  | response (body : String)
  | error (message : String) (failureReceipt : Option String)
deriving DecidableEq

/-! ### The model service -/

/-- What `json.loads` makes of an answer: whether it is an object with a list of choices, its failure
receipt, if it is an object with one, and its encoding. A receipt that is validated does or does not
prove the request closed. -/
structure Document where
  choices : Bool
  receipt : Option (String × Option Bool)
  text : String
  encodedBytes : ℕ

/-- An answer of the model service; without a document its body is not JSON. -/
structure Reply where
  bytes : ℕ
  complete : Bool
  status : ℕ
  document : Option Document

/-- What becomes of a dispatched request. The exceptions that `execute_generation` catches are those of
the operating system, of HTTP and of values. -/
inductive Upstream
  | raised (caught : Bool)
  | replied (reply : Reply)

def serviceFailed : ℕ × Answer :=
  (502, .error "Loopback model service failed, cancelled, or timed out; no replay" none)

def workerFailed : ℕ × Answer := (500, .error "Generation worker failed; no replay" none)

/-- `execute_generation` behind the dispatch: the terminal status and the answer. -/
def conclude (controlled stopped : Bool) : Upstream → Status × ℕ × Answer
  | .raised caught => (.uncertain, if caught then serviceFailed else workerFailed)
  | .replied reply =>
    if maxResponse < reply.bytes ∨ stopped = true ∨ reply.complete = false then
      (.uncertain, serviceFailed)
    else if reply.status ≠ 200 then
      if controlled then
        match reply.document.bind (·.receipt) with
        | some (receipt, some terminal) =>
          (if terminal then .failed else .uncertain, 502,
            .error "Loopback model service rejected generation; no replay" (some receipt))
        | _ => (.uncertain, serviceFailed)
      else (.failed, serviceFailed)
    else
      match reply.document with
      | none => (.uncertain, serviceFailed)
      | some document =>
        if document.choices = false ∨ maxResponse < document.encodedBytes then
          (.uncertain, serviceFailed)
        else (.finished, 200, .response document.text)

/-! ### The relay -/

/-- `check_generation` and the digest of a payload. -/
structure Rules (Payload : Type) where
  check : Payload → Except String Unit
  sha256 : Payload → String
  echoSha256 : String

/-- The memory of a running relay. `completions` holds no value until the worker has ended;
`reporting` are the workers between the end of their generation and that of their thread. -/
structure RelayState where
  settings : RelaySettings
  bootId : ℕ
  deadline : ℚ
  stopping : Bool
  journal : Journal
  active : AList fun _ : Id => Generation
  completions : AList fun _ : Id => Option Answer
  reporting : AList fun _ : Id => Answer

/-- What a handler does: the files it writes, the requests it marks as dispatched, and the memory it
leaves behind. -/
structure Outcome where
  writes : List Write
  dispatched : List Id
  relay : RelayState

/-- A submitted or synchronous request for a generation; a timeout that is no finite number is
missing. -/
structure GenerationRequest (Payload : Type) where
  id : String
  payload : Payload
  timeoutMs : Option ℚ

/-- `validate_generation`. -/
def validateGeneration {Payload : Type} (rules : Rules Payload) (value : GenerationRequest Payload) :
    Except RelayError Id := do
  let id ← requireId "Invalid generation request" value.id
  match rules.check value.payload with
  | .error message => .error (.value message)
  | .ok () => .ok id

def Status.occupies : Status → Bool
  | .running | .uncertain => true
  | _ => false

namespace RelayState

variable (relay : RelayState)

/-- `occupied | completions.keys()`. -/
def occupied : Finset Id :=
  ((relay.journal.entries.filter fun entry => entry.2.status.occupies).map (·.1)).toFinset ∪
    relay.completions.keys.toFinset

/-- `admit_generation`. -/
def admitGeneration (id : Id) (digest : String) (timeoutMs : Option ℚ) (now : ℚ) (isEcho : Bool)
    (origin : Origin) : Except RelayError Outcome :=
  let maximum : ℕ := if isEcho then 20000 else relay.settings.generationSeconds * 1000
  match timeoutMs.filter fun timeout => 0 < timeout ∧ timeout ≤ (maximum : ℚ) with
  | none => .error (.value ("timeout_ms must be finite and within " ++ toString maximum))
  | some timeout =>
    if relay.stopping ∨ relay.deadline ≤ now then .error (.value "Relay service lifetime ended")
    else if id ∈ relay.journal then
      .error (.conflict "GPU request ID already admitted; no replay")
    else if relay.settings.maxInflight ≤ relay.occupied.card then
      .error (.capacity "GPU relay capacity occupied; uncertain requests retain reservations")
    else if maxTracked ≤ relay.journal.keys.length then
      .error (.capacity "GPU journal limit reached; offline reconciliation required")
    else
      let record : Record := ⟨id, .running, relay.bootId, some digest, false⟩
      .ok ⟨[⟨id, record⟩], [], { relay with
        journal := relay.journal.insert id record
        active := relay.active.insert id
          ⟨false, false, min (now + timeout / 1000) relay.deadline, origin⟩ }⟩

/-- `finish_generation`; without an active generation of the identity, its ownership has changed. -/
def finishGeneration (id : Id) (status : Status) : Except RelayError Outcome :=
  if id ∈ relay.active then
    match relay.journal.lookup id with
    | none => .error (.unknown "Unknown request ID")
    | some record =>
      .ok ⟨[⟨id, { record with status := status }⟩], [], { relay with
        journal := relay.journal.insert id { record with status := status }
        active := relay.active.erase id }⟩
  else .error (.conflict "Generation ownership changed")

/-- `cancel_generation`; the connection it closes makes the worker fail. -/
def cancelGeneration (id : Id) : Except RelayError Outcome :=
  match relay.journal.lookup id with
  | none =>
    if maxTracked ≤ relay.journal.keys.length then .error (.capacity "GPU journal limit reached")
    else
      -- Cancellation may overtake dispatch; the tombstone keeps a late request from starting.
      let record : Record := ⟨id, .cancelled, relay.bootId, none, false⟩
      .ok ⟨[⟨id, record⟩], [], { relay with journal := relay.journal.insert id record }⟩
  | some _ =>
    match relay.active.lookup id with
    | none => .ok ⟨[], [], relay⟩
    | some generation =>
      .ok ⟨[], [], { relay with
        active := relay.active.insert id { generation with cancel := true } }⟩

/-- `acknowledge_delivery`. -/
def acknowledgeDelivery (id : Id) : Except RelayError Outcome :=
  if ((relay.journal.lookup id).any (·.deliveryAcknowledged)) = true then .ok ⟨[], [], relay⟩
  else
    match relay.completions.lookup id, relay.journal.lookup id with
    | none, none => .error (.unknown "Unknown request ID")
    | none, some _ => .error (.gone "Completion unavailable or acknowledged; no replay")
    | some none, _ => .error (.conflict "Generation has not completed")
    | some (some _), none => .error (.unknown "Unknown request ID")
    | some (some _), some record =>
      .ok ⟨[⟨id, { record with deliveryAcknowledged := true }⟩], [], { relay with
        journal := relay.journal.insert id { record with deliveryAcknowledged := true }
        completions := relay.completions.erase id }⟩

def endWorker (id : Id) (generation : Generation) (status : Status) (answer : Answer) :
    Except RelayError Outcome := do
  let outcome ← relay.finishGeneration id status
  match generation.origin with
  | .submit _ => .ok { outcome with
      relay := { outcome.relay with reporting := outcome.relay.reporting.insert id answer } }
  | _ => .ok outcome

end RelayState

inductive GpuEvent (Payload : Type)
  | submit (value : GenerationRequest Payload) (now : ℚ)
  | generate (value : GenerationRequest Payload) (now : ℚ)
  | echo (id : String) (now : ℚ)
  | cancel (id : String)
  | acknowledge (id : String)
  /-- `Thread(...).start()` of a submitted generation succeeds or raises. -/
  | start (id : Id) (succeeds : Bool)
  /-- The worker is connected and marks its request as dispatched. -/
  | dispatch (id : Id) (now : ℚ)
  /-- The worker fails before that, or finds its request cancelled or too late. -/
  | fail (id : Id) (caught : Bool)
  /-- The dispatched request ends. -/
  | conclude (id : Id) (upstream : Upstream) (now : ℚ)
  /-- The worker of a submitted generation leaves its value. -/
  | report (id : Id)
  | endEcho (id : Id) (finished : Bool)
  /-- `stop_event.set()`. -/
  | stopping

namespace RelayState

variable (relay : RelayState)

def worker (id : Id) (dispatched : Bool) : Except RelayError Generation :=
  match relay.active.lookup id with
  | none => .error (.unknown "no such worker")
  | some generation =>
    if generation.dispatched = dispatched ∧
        (generation.origin = .submit true ∨ generation.origin = .generate) then .ok generation
    else .error (.unknown "no such worker")

def handle {Payload : Type} (rules : Rules Payload) : GpuEvent Payload → Except RelayError Outcome
  | .submit value now => do
      let id ← validateGeneration rules value
      let outcome ← relay.admitGeneration id (rules.sha256 value.payload) value.timeoutMs now false
        (.submit false)
      .ok { outcome with
        relay := { outcome.relay with completions := outcome.relay.completions.insert id none } }
  | .generate value now => do
      let id ← validateGeneration rules value
      relay.admitGeneration id (rules.sha256 value.payload) value.timeoutMs now false .generate
  | .echo text now => do
      let id ← requireId "Invalid qualification ID" text
      relay.admitGeneration id rules.echoSha256 (some 20000) now true .echo
  | .cancel text => do
      let id ← requireId "Invalid cancellation ID" text
      relay.cancelGeneration id
  | .acknowledge text => do
      let id ← requireId "Invalid delivery acknowledgment" text
      relay.acknowledgeDelivery id
  | .start id succeeds =>
    match relay.active.lookup id with
    | some generation =>
      if generation.origin ≠ .submit false then .error (.unknown "no such worker")
      else if succeeds then
        .ok ⟨[], [], { relay with
          active := relay.active.insert id { generation with origin := .submit true } }⟩
      else do
        let outcome ← relay.finishGeneration id .failed
        .ok { outcome with
          relay := { outcome.relay with completions := outcome.relay.completions.erase id } }
    | none => .error (.unknown "no such worker")
  | .dispatch id now => do
      let generation ← relay.worker id false
      if generation.cancel ∨ generation.deadline ≤ now then
        .error (.value "Request cancelled before dispatch")
      else .ok ⟨[], [id], { relay with
        active := relay.active.insert id { generation with dispatched := true } }⟩
  | .fail id caught => do
      let generation ← relay.worker id false
      relay.endWorker id generation .failed (if caught then serviceFailed else workerFailed).2
  | .conclude id upstream now => do
      let generation ← relay.worker id true
      let ended := conclude relay.settings.controlled
        (generation.cancel || decide (generation.deadline ≤ now)) upstream
      relay.endWorker id generation ended.1 ended.2.2
  | .report id =>
    match relay.reporting.lookup id with
    | none => .error (.unknown "no such worker")
    | some answer => .ok ⟨[], [], { relay with
        completions := if id ∈ relay.completions then relay.completions.insert id (some answer)
          else relay.completions
        reporting := relay.reporting.erase id }⟩
  | .endEcho id finished =>
    match relay.active.lookup id with
    | none => .error (.unknown "no such worker")
    | some generation =>
      if generation.origin = .echo then
        relay.finishGeneration id (if finished then .finished else .failed)
      else .error (.unknown "no such worker")
  | .stopping => .ok ⟨[], [], { relay with stopping := true }⟩

end RelayState

/-! ### Starts and stops -/

def Record.restarted (record : Record) : Record :=
  if record.status = .running then { record with status := .uncertain } else record

/-- What a start writes for a record: one that it finds running. -/
def Record.restartWrites (record : Record) : List Write :=
  if record.status = .running then [⟨record.id, record.restarted⟩] else []

/-- `recover`: the files it writes, in the order of the directory listing, and the journal. -/
def recover (requests : Journal) : List Id → Journal → List Write × Except RelayError Journal
  | [], journal => ([], .ok journal)
  | path :: rest, journal =>
    match requests.lookup path with
    | none => recover requests rest journal
    | some record =>
      if record.id ≠ path then ([], .error (.value "Invalid GPU dispatch journal"))
      else if maxTracked < (journal.insert record.id record.restarted).keys.length then
        (record.restartWrites, .error (.value "GPU journal requires offline reconciliation"))
      else
        (record.restartWrites ++ (recover requests rest (journal.insert record.id record.restarted)).1,
          (recover requests rest (journal.insert record.id record.restarted)).2)

/-- The files of the relay, its process, and what has happened. -/
structure Gpu where
  requests : Journal
  relay : Option RelayState
  boots : ℕ
  dispatches : List Id

/-- A start, with the listing of `requests`, or an event of the running relay. -/
inductive GpuStep (Payload : Type)
  | boot (settings : RelaySettings) (paths : List Id) (now : ℚ)
  | event (event : GpuEvent Payload)

/-- A step that runs to its end, or a process that is stopped within one, after some of the writes. -/
inductive GpuAction (Payload : Type)
  | run (step : GpuStep Payload)
  | stop (step : GpuStep Payload) (writes : ℕ)

def journalFiles : Storage Journal Write where
  apply requests write := requests.insert write.path write.record
  legal requests write := write.record.id = write.path ∧
    ∀ record, requests.lookup write.path = some record →
      record.status = .running ∨ write.record.status = record.status

namespace Gpu

variable {Payload : Type} (rules : Rules Payload) (gpu : Gpu)

/-- What a step writes, what it marks as dispatched, and the process that it leaves. -/
def effect : GpuStep Payload → Option (List Write × List Id × Option RelayState)
  | .boot settings paths now =>
    if gpu.relay.isNone ∧ paths.Perm gpu.requests.keys then
      let recovered := recover gpu.requests paths ∅
      some (recovered.1, [], recovered.2.toOption.map fun journal =>
        { settings := settings
          bootId := gpu.boots
          deadline := now + settings.maxSeconds
          stopping := false
          journal := journal
          active := ∅
          completions := ∅
          reporting := ∅ })
    else none
  | .event event =>
    gpu.relay.bind fun relay => (relay.handle rules event).toOption.map fun outcome =>
      (outcome.writes, outcome.dispatched, some outcome.relay)

def step : GpuAction Payload → Option Gpu
  | .run step => (gpu.effect rules step).map fun effect =>
    { requests := journalFiles.replay gpu.requests effect.1
      relay := effect.2.2
      boots := gpu.boots + 1
      dispatches := gpu.dispatches ++ effect.2.1 }
  | .stop step writes => (gpu.effect rules step).map fun effect =>
    { gpu with
      requests := journalFiles.replay gpu.requests (effect.1.take writes)
      relay := none }

end Gpu

def gpuSystem {Payload : Type} (rules : Rules Payload) : System Gpu (GpuAction Payload) where
  initial gpu := gpu = ⟨∅, none, 0, []⟩
  step gpu action := gpu.step rules action

end TinyDSV41.Relay
