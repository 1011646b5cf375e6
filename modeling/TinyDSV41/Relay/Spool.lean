/-
**The CPU relay: a spool of jobs in three directories.**

A job is put into `inbox` under its identity, moved to `inflight` when it is claimed, and finished by a
result in `outbox`. Every handler runs under the lock of the relay and is a script over the spool; the
process can be stopped between two of its operations. The order of a directory listing and each
reading of the clock are given from outside.

* `unfinishedClaims`, `claim`, `result`, `cancelClaim`, `recover` — the handlers.
* `spoolFiles` — the operations of the handlers, and when each of them is in order.
* `cpuSystem` — the runs of the relay over starts and stops.

A disk that refuses an operation is not modelled. Fields of a wrong type are refused before a handler
of the relay is called, with no effect; a file that `read_json` or the first checks of `check_job`
refuse is `refused`.
-/

import TinyDSV41.Lib.Transition
import TinyDSV41.Lib.Journal
import TinyDSV41.Relay.Basic

namespace TinyDSV41.Relay

open Lib
open Script (lift observe perform raise)

/-! ### Files -/

/-- A job; a deadline that is no finite number is missing. -/
structure Job (Payload : Type) where
  id : Id
  operation : String
  payload : Payload
  deadlineUnix : Option ℚ

/-- A file of `inbox` or `inflight`, with the message it is refused with. -/
inductive File (Payload : Type)
  | refused (message : String)
  | job (job : Job Payload)

inductive ResultBody
  | response (text : String)
  | error (message : String) (generationFailure : Option String)
deriving DecidableEq

/-- A file of `outbox`. -/
structure JobResult where
  id : Id
  body : ResultBody
deriving DecidableEq

def JobResult.tooLong (value : JobResult) : Bool :=
  match value.body with
  | .error message _ => 1000 < message.length
  | .response _ => false

/-- The three directories, by the stems of the names of their files. -/
structure Spool (Payload : Type) where
  inbox : AList fun _ : String => File Payload
  inflight : AList fun _ : String => File Payload
  outbox : AList fun _ : String => JobResult

/-- An operation of the relay on the spool. -/
inductive SpoolOp
  /-- `os.rename` from `inbox` to `inflight`. -/
  | move (name : String)
  /-- `atomic_write` to `outbox`. -/
  | finish (name : String) (result : JobResult)

namespace Spool

variable {Payload : Type} (spool : Spool Payload)

def apply : SpoolOp → Spool Payload
  | .move name =>
    match spool.inbox.lookup name with
    | none => spool
    | some file => { spool with
        inbox := spool.inbox.erase name
        inflight := spool.inflight.insert name file }
  | .finish name result => { spool with outbox := spool.outbox.insert name result }

/-- An operation that loses nothing and overwrites nothing. -/
def Legal (spool : Spool Payload) : SpoolOp → Prop
  | .move name => name ∈ spool.inbox ∧ name ∉ spool.inflight
  | .finish name _ => name ∈ spool.inflight ∧ name ∉ spool.outbox

def waiting : List String := spool.inflight.keys.filter fun name => name ∉ spool.outbox

end Spool

def spoolFiles (Payload : Type) : Storage (Spool Payload) (SpoolOp) where
  apply := Spool.apply
  legal := Spool.Legal

/-- `check_generation`, the payload of a qualification, and `validate_generation_failure`. -/
structure JobRules (Payload : Type) where
  check : Payload → Except String Unit
  qualifies : Payload → Bool
  validateFailure : String → Payload → Id → Except String Unit

abbrev SpoolScript (Payload Value : Type) := Script (spoolFiles Payload) RelayError Value

/-! ### Handlers -/

section Handlers

variable {Payload : Type} (rules : JobRules Payload)

/-- The clock, as it is read from the second file on. -/
def nextFile (clock : ℕ → ℚ) : ℕ → ℚ := fun reading => clock (reading + 2)

def ofMessage {Value : Type} : Except String Value → Except RelayError Value
  | .error message => .error (.value message)
  | .ok value => .ok value

/-- `check_job` of a job whose deadline is a number. -/
def checkPayload (job : Job Payload) : Except RelayError Unit :=
  if job.operation = "echo" then
    if rules.qualifies job.payload then .ok () else .error (.value "Invalid qualification payload")
  else if job.operation = "generate" then ofMessage (rules.check job.payload)
  else .error (.value "Unsupported operation")

/-- `read_json` and `check_job`: the job and its deadline. Two readings of the clock are compared with
it, the second only if the job must not be expired. -/
def readJob (excessive : ℚ) (expired : Option ℚ) (file : Option (File Payload)) :
    Except RelayError (Job Payload × ℚ) :=
  match file with
  | none => .error (.value "Invalid or oversized spool file")
  | some (.refused message) => .error (.value message)
  | some (.job job) =>
    match job.deadlineUnix with
    | none => .error (.value "Expired or excessive job deadline")
    | some deadline =>
      if deadline ≤ 0 ∨ excessive + 3600 < deadline ∨ (expired.any (deadline ≤ ·)) = true then
        .error (.value "Expired or excessive job deadline")
      else (checkPayload rules job).map fun _ => (job, deadline)

/-- `_fail_claim`. -/
def failClaim (id : Id) (message : String) : SpoolScript Payload Unit := do
  let spool ← observe
  if id.text ∈ spool.outbox then pure ()
  else perform (.finish id.text ⟨id, .error message none⟩)

/-- `_unfinished_claims`, over the listing of `inflight`. -/
def unfinishedClaims (clock : ℕ → ℚ) : List String → SpoolScript Payload (List Id)
  | [] => pure []
  | name :: rest => do
      let spool ← observe
      if name ∈ spool.outbox then unfinishedClaims (nextFile clock) rest
      else
        let (job, deadline) ← lift (readJob rules (clock 0) none (spool.inflight.lookup name))
        if name ≠ job.id.text then raise (.value "Invalid claimed job identity")
        else if deadline ≤ clock 1 then
          failClaim job.id "CPU deadline expired; no replay"
          unfinishedClaims (nextFile clock) rest
        else
          let active ← unfinishedClaims (nextFile clock) rest
          pure (job.id :: active)

/-- The loop of `claim` over its paths. -/
def claimFrom (clock : ℕ → ℚ) : List String → SpoolScript Payload (Option (Job Payload))
  | [] => pure none
  | name :: rest => do
      let spool ← observe
      if name ∉ spool.inbox then claimFrom (nextFile clock) rest
      else
        let (job, deadline) ← lift (readJob rules (clock 0) none (spool.inbox.lookup name))
        if name ≠ job.id.text then raise (.value "Spool filename does not match ID")
        else if name ∈ spool.inflight ∨ name ∈ spool.outbox then
          raise (.value "Duplicate job ID")
        else
          perform (.move name)
          if deadline ≤ clock 1 then
            failClaim job.id "CPU deadline expired before dispatch; no replay"
            claimFrom (nextFile clock) rest
          else pure (some job)

def fileName (name : String) : String := name ++ ".json"

/-- The files of a listing in the order of `sorted`. -/
def inOrder (names : List String) : List String :=
  names.mergeSort fun first second => fileName first ≤ fileName second

/-- `claim`. -/
def claim (maxInflight : ℕ) (clock : ℕ → ℚ) (listing : List String) (requested : Option Id) :
    SpoolScript Payload (Option (Job Payload)) := do
  let active ← unfinishedClaims rules clock listing
  if maxInflight ≤ active.length then pure none
  else
    let spool ← observe
    claimFrom rules (fun reading => clock (reading + 2 * listing.length)) (match requested with
        | some id => [id.text]
        | none => inOrder spool.inbox.keys)

/-- `validate_generation_failure` against the claimed job. -/
def checkFailure (spool : Spool Payload) (clock : ℕ → ℚ) (value : JobResult) : Except RelayError Unit :=
  match value.body with
  | .error _ (some receipt) => do
      let (job, _) ← readJob rules (clock 0) none (spool.inflight.lookup value.id.text)
      if job.id ≠ value.id ∨ job.operation ≠ "generate" then
        .error (.value "Failure receipt has no matching generation claim")
      else ofMessage (rules.validateFailure receipt job.payload value.id)
  | _ => .ok ()

/-- `result`; whether it is a duplicate. -/
def result (clock : ℕ → ℚ) (listing : List String) (value : JobResult) : SpoolScript Payload Bool := do
  if value.tooLong then raise (.value "Invalid error")
  else
    let _ ← unfinishedClaims rules clock listing
    let spool ← observe
    let _ ← lift (checkFailure rules spool (fun reading => clock (reading + 2 * listing.length)) value)
    match spool.outbox.lookup value.id.text with
    | some committed =>
      if committed ≠ value then raise (.value "Conflicting result already committed")
      else pure true
    | none =>
      if value.id.text ∉ spool.inflight then raise (.value "No matching claimed job")
      else
        perform (.finish value.id.text value)
        pure false

/-- `cancel_claim`. -/
def cancelClaim (clock : ℕ → ℚ) (id : Id) : SpoolScript Payload Unit := do
  let spool ← observe
  if id.text ∈ spool.inflight then failClaim id "Request cancelled; no replay"
  else if id.text ∈ spool.inbox then
    let (job, _) ← lift (readJob rules (clock 0) none (spool.inbox.lookup id.text))
    if job.id ≠ id then raise (.value "Invalid queued identity")
    else
      perform (.move id.text)
      failClaim id "Request cancelled; no replay"
  else raise (.value "Unknown claim")

/-- `recover` of the CPU role, over the listing of `inflight`. -/
def recoverClaims (clock : ℕ → ℚ) : List String → SpoolScript Payload Unit
  | [] => pure ()
  | name :: rest => do
      let spool ← observe
      if name ∈ spool.outbox then recoverClaims (nextFile clock) rest
      else
        let (job, _) ← lift (readJob rules (clock 0) none (spool.inflight.lookup name))
        if name ≠ job.id.text then raise (.value "Invalid recovered claim identity")
        else
          failClaim job.id "CPU relay restarted; outcome uncertain, no replay"
          recoverClaims (nextFile clock) rest

end Handlers

/-! ### The relay -/

inductive CpuRequest
  | claim (requested : Option Id)
  | result (value : JobResult)
  | cancel (id : Id)
  | status

/-- The job that a request hands out, if any. -/
def serve {Payload : Type} (rules : JobRules Payload) (settings : RelaySettings) (clock : ℕ → ℚ)
    (listing : List String) : CpuRequest → SpoolScript Payload (Option (Job Payload))
  | .claim requested => claim rules settings.maxInflight clock listing requested
  | .result value => do
      let _ ← result rules clock listing value
      pure none
  | .cancel id => do
      cancelClaim rules clock id
      pure none
  | .status => do
      let _ ← unfinishedClaims rules clock listing
      pure none

/-- The spool, the settings of the running process, and what has happened: the names that were ever
put into `inbox`, the jobs handed out, and the names whose results were written. -/
structure Cpu (Payload : Type) where
  spool : Spool Payload
  process : Option RelaySettings
  submitted : List String
  handed : List Id
  written : List String

inductive CpuStep
  | boot (settings : RelaySettings)
  | request (request : CpuRequest)

/-- The agent or a qualification puts a job into `inbox`; a handler runs to its end, with its listing of `inflight` and its
readings of the clock; or the process is stopped within a handler, after some of its operations. -/
inductive CpuAction (Payload : Type)
  | submit (name : String) (file : File Payload)
  | run (step : CpuStep) (listing : List String) (clock : ℕ → ℚ)
  | stop (step : CpuStep) (listing : List String) (clock : ℕ → ℚ) (operations : ℕ)

/-- The name whose result an operation writes. -/
def SpoolOp.written? : SpoolOp → Option String
  | .finish name _ => some name
  | _ => none

namespace Cpu

variable {Payload : Type} (rules : JobRules Payload) (cpu : Cpu Payload)

/-- What a step makes of the spool, the process it leaves and the job it hands out. -/
def effect (listing : List String) (clock : ℕ → ℚ) :
    CpuStep → Option (List (SpoolOp) × Option RelaySettings × Option (Job Payload))
  | .boot settings =>
    if cpu.process.isNone ∧ listing.Perm cpu.spool.inflight.keys then
      let recovered := (recoverClaims rules clock listing).run cpu.spool
      some (recovered.1, recovered.2.toOption.map fun _ => settings, none)
    else none
  | .request request =>
    cpu.process.bind fun settings =>
      if listing.Perm cpu.spool.inflight.keys then
        let served := (serve rules settings clock listing request).run cpu.spool
        some (served.1, some settings, served.2.toOption.join)
      else none

def step : CpuAction Payload → Option (Cpu Payload)
  | .submit name file =>
    if name ∈ cpu.submitted then none
    else some { cpu with
      spool := { cpu.spool with inbox := cpu.spool.inbox.insert name file }
      submitted := name :: cpu.submitted }
  | .run step listing clock => (cpu.effect rules listing clock step).map fun effect =>
    { spool := (spoolFiles Payload).replay cpu.spool effect.1
      process := effect.2.1
      submitted := cpu.submitted
      handed := cpu.handed ++ (effect.2.2.map (·.id)).toList
      written := cpu.written ++ effect.1.filterMap SpoolOp.written? }
  | .stop step listing clock operations => (cpu.effect rules listing clock step).map fun effect =>
    { cpu with
      spool := (spoolFiles Payload).replay cpu.spool (effect.1.take operations)
      process := none
      written := cpu.written ++ (effect.1.take operations).filterMap SpoolOp.written? }

end Cpu

def cpuSystem {Payload : Type} (rules : JobRules Payload) : System (Cpu Payload) (CpuAction Payload) where
  initial cpu := cpu = ⟨⟨∅, ∅, ∅⟩, none, [], [], []⟩
  step cpu action := cpu.step rules action

end TinyDSV41.Relay
