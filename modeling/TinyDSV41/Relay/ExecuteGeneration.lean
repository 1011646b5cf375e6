/-
**`execute_generation`, call by call.**

Every call of the worker may raise, and between its calls a timer or a handler may cancel the request: what
the calls do, what the worker finds when it looks, and how the model service answers is given by the
surroundings (`Surroundings`). The worker marks its request as dispatched, keeps a terminal status, and
writes the status of the request at its end; the process may be stopped between two operations.

* `executeGeneration` — the worker, with its `except` and its `finally`.
* `Caller.run` — the thread of a submitted generation, or the handler of a synchronous one.
* `Closed` — the model service has answered in full, and nothing of the request is left open.
* `execute_generation_status` — which status is written.

The connection sees a cancellation as a call that raises. What the timer does is a cancellation.
-/

import TinyDSV41.Lib.Cleanup
import TinyDSV41.Lib.Framing
import TinyDSV41.Coordinator.GenerationFailure
import TinyDSV41.Relay.GpuRelay

namespace TinyDSV41.Relay

open Lib Lib.Script
open Script (attempt lift observe perform raise)
open Coordinator (validateGenerationFailure provesClosure CheckError)

/-! ### The surroundings -/

/-- An exception: one of the operating system, of HTTP or of a value, or another one. -/
inductive Raised
  | os (message : String)
  | http (message : String)
  | value (message : String)
  | other
deriving DecidableEq

/-- The exceptions that `execute_generation` catches. -/
def Raised.caught : Raised → Bool
  | .other => false
  | _ => true

/-- A `TypeError` is not caught. -/
def Raised.ofCheck : CheckError → Raised
  | .value message => .value message
  | .type => .other

inductive WorkerCall
  | traceBegin
  | startTimer
  | openConnection
  | connect
  | token
  | request
  | getresponse
  | read
  | traceReceipt
  | encode
  | traceEnd
  | traceError
  | close
deriving DecidableEq

/-- When the worker looks whether its request is cancelled or too late. -/
inductive Look
  | beforeDispatch
  | completed
deriving DecidableEq

/-- What becomes of `finish_generation`: the record is not replaced, it is replaced and the call raises, or
it is replaced and traced. -/
inductive Finishing
  | refused (raised : Raised)
  | unsynced (raised : Raised)
  | written (traced : Except Raised Unit)

structure Surroundings where
  call : WorkerCall → Except Raised Unit
  cancelled : Look → Bool
  now : Look → ℚ
  response : HttpResponse UInt8
  finish : Finishing
  fallback : Finishing

/-- `json.loads` and `evidence_digest`. -/
structure WorkerRules (Payload : Type) where
  loads : List UInt8 → Except Raised Json
  evidenceDigest : Payload → String

/-- A generation as its worker gets it. -/
structure WorkerRequest (Payload : Type) where
  id : String
  payload : Payload
  controlled : Bool
  deadline : ℚ

/-! ### The worker -/

/-- The connection, `context["dispatched"]`, `terminal`, whether the generation is the active one of its
request, and the statuses that were written for it. -/
structure Execution where
  connection : Bool
  dispatched : Bool
  terminal : Status
  active : Bool
  recorded : List Status
deriving DecidableEq

def Execution.admitted : Execution := ⟨false, false, .failed, true, []⟩

inductive ExecutionOp
  | connection
  | dispatch
  | terminal (status : Status)
  | write (status : Status)
  | leave
deriving DecidableEq

def Execution.apply (execution : Execution) : ExecutionOp → Execution
  | .connection => { execution with connection := true }
  | .dispatch => { execution with dispatched := true }
  | .terminal status => { execution with terminal := status }
  | .write status => { execution with recorded := execution.recorded ++ [status] }
  | .leave => { execution with active := false }

/-- A status that says that the request is over. -/
def Status.Certain (status : Status) : Prop := status = .finished ∨ status = .failed ∨ status = .cancelled

/-- A status that may be written when the request is or is not closed. -/
structure Fits (closed : Prop) (execution : Execution) (status : Status) : Prop where
  ended : status ≠ .running
  certain : status ≠ .uncertain → execution.dispatched = false ∨ closed
  undispatched : execution.dispatched = false → status ≠ .uncertain

/-- The worker writes a status that fits, and marks its request before that. -/
def executions (closed : Prop) : Storage Execution ExecutionOp where
  apply := Execution.apply
  legal execution
    | .write status => Fits closed execution status
    | .dispatch => execution.recorded = []
    | _ => True

variable {Payload : Type} (rules : WorkerRules Payload) (value : WorkerRequest Payload) (env : Surroundings)

/-- What a controlled service has to prove when it rejects. -/
def ClosureProven (body : List UInt8) : Prop :=
  ∃ document failure receipt, rules.loads body = .ok document ∧
    document.get "generation_failure" = some failure ∧
    validateGenerationFailure (rules.evidenceDigest value.payload) value.id none failure = .ok receipt ∧
    provesClosure receipt = true

/-- **The request is closed**: the model service has answered in time and in full, within the bounds, and a
controlled one that rejects has proven the end of the request. -/
def Closed : Prop :=
  env.call .getresponse = .ok () ∧ env.call .read = .ok () ∧
  ∃ body, env.response.Complete body ∧ body.length ≤ maxResponse ∧
    env.cancelled .completed = false ∧ env.now .completed < value.deadline ∧
    (value.controlled = true → env.response.status ≠ 200 → ClosureProven rules value body)

abbrev WorkerScript (Value : Type) := Script (executions (Closed rules value env)) Raised Value

/-- What a generation is answered with. -/
inductive Completion
  | response (body : Json)
  | error (message : String) (generationFailure : Option Json)

/-- `execute_generation` up to the dispatch, which is under the lock. -/
def dispatchGeneration : WorkerScript rules value env Unit := do
  lift (env.call .startTimer)
  lift (env.call .openConnection)
  perform .connection
  lift (env.call .connect)
  lift (require (¬ (env.cancelled .beforeDispatch = true ∨ value.deadline ≤ env.now .beforeDispatch))
    (.os "Request cancelled before dispatch"))
  perform .dispatch
  perform (.terminal .uncertain)

def authorization : Except Raised Unit := if value.controlled then env.call .token else .ok ()

def exchange : Except Raised Unit := do
  authorization value env
  env.call .request
  env.call .getresponse
  env.call .read

def checkedBody : Except Raised (List UInt8) :=
  match env.response.read (maxResponse + 1) with
  | none => .error (.http "IncompleteRead")
  | some (data, length) => do
      require (data.length ≤ maxResponse) (.value "Upstream response too large")
      require (¬ (env.cancelled .completed = true ∨ value.deadline ≤ env.now .completed))
        (.os "Request completed after cancellation or deadline")
      require (length = some 0 ∨ length = none) (.http "Incomplete upstream response")
      return data

def failureReceipt (data : List UInt8) : Except Raised Json := do
  let body ← rules.loads data
  match body.get "generation_failure" with
  | some failure =>
    (validateGenerationFailure (rules.evidenceDigest value.payload) value.id none failure).mapError Raised.ofCheck
  | none => .error (.value "Fixed loopback upstream rejected the request")

/-- `isinstance(result.get("choices"), list)` -/
def hasChoices (result : Json) : Bool :=
  match result.get "choices" with
  | some (.list _) => true
  | _ => false

def completionOf (data : List UInt8) : Except Raised Json := do
  let result ← rules.loads data
  require (hasChoices result = true) (.value "Invalid model response")
  env.call .encode
  require ((dumps .compact result).length ≤ maxResponse) (.value "Encoded model response too large")
  return result

def concludeResponse (data : List UInt8) : WorkerScript rules value env (ℕ × Completion) :=
  if env.response.status ≠ 200 then
    if value.controlled = true then do
      let receipt ← lift (failureReceipt rules value data)
      perform (.terminal (if provesClosure receipt then .failed else .uncertain))
      lift (env.call .traceReceipt)
      pure (502, .error "Loopback model service rejected generation; no replay" (some receipt))
    else do
      perform (.terminal .failed)
      raise (.value "Fixed loopback upstream rejected the request")
  else do
    let result ← lift (completionOf rules env data)
    perform (.terminal .finished)
    lift (env.call .traceEnd)
    pure (200, .response result)

/-- `finish_generation`. -/
def finishGeneration (finishing : Finishing) (status : Status) : WorkerScript rules value env Unit := do
  let execution ← observe
  if execution.active = true then
    match finishing with
    | .refused raised => raise raised
    | .unsynced raised => do
        perform (.write status)
        raise raised
    | .written traced => do
        perform (.write status)
        perform .leave
        lift traced
  else raise (.value "Generation ownership changed")

/-- The `try` of `execute_generation`. -/
def generation : WorkerScript rules value env (ℕ × Completion) := do
  dispatchGeneration rules value env
  lift (exchange value env)
  let data ← lift (checkedBody value env)
  concludeResponse rules value env data

/-- Its `except`. -/
def generationError (raised : Raised) : WorkerScript rules value env (ℕ × Completion) :=
  if raised.caught = true then do
    lift (env.call .traceError)
    pure (502, .error "Loopback model service failed, cancelled, or timed out; no replay" none)
  else raise raised

/-- Its `finally`. -/
def generationEnd : WorkerScript rules value env Unit := do
  let execution ← observe
  lift (if execution.connection then env.call .close else .ok ())
  finishGeneration rules value env env.finish execution.terminal

/-- `execute_generation`. -/
def executeGeneration : WorkerScript rules value env (ℕ × Completion) := do
  lift (env.call .traceBegin)
  Script.lastly (attempt (generation rules value env) (generationError rules value env))
    (generationEnd rules value env)

/-- `worker` of a submitted generation, which finishes what `execute_generation` did not. -/
def submitWorker : WorkerScript rules value env (ℕ × Completion) :=
  attempt (executeGeneration rules value env) fun _ => do
    let execution ← observe
    if execution.active = true then
      finishGeneration rules value env env.fallback (if execution.dispatched then .uncertain else .failed)
      pure (500, .error "Generation worker failed; no replay" none)
    else pure (500, .error "Generation worker failed; no replay" none)

/-- Who runs `execute_generation`. -/
inductive Caller
  | submit
  | generate
deriving DecidableEq

def Caller.run : Caller → WorkerScript rules value env (ℕ × Completion)
  | .submit => submitWorker rules value env
  | .generate => executeGeneration rules value env

/-! ### What holds on the way -/

section Ensured

variable {rules value env}

/-- Nothing is written yet, and the request is not dispatched. -/
structure Waiting (execution : Execution) : Prop where
  active : execution.active = true
  undispatched : execution.dispatched = false
  terminal : execution.terminal = .failed
  unrecorded : execution.recorded = []

/-- The request is dispatched, and its end is open. -/
structure Open (execution : Execution) : Prop where
  active : execution.active = true
  dispatched : execution.dispatched = true
  terminal : execution.terminal = .uncertain

structure Settled (closed : Prop) (execution : Execution) : Prop where
  active : execution.active = true
  fits : Fits closed execution execution.terminal

/-- A status is written, or still to be written. -/
def Kept (execution : Execution) : Prop := execution.active = true ∨ execution.recorded ≠ []

/-- The model service has answered in time and in full. -/
structure Answered (value : WorkerRequest Payload) (env : Surroundings) (data : List UInt8) : Prop where
  answered : env.call .getresponse = .ok ()
  read : env.call .read = .ok ()
  complete : env.response.Complete data
  bounded : data.length ≤ maxResponse
  uncancelled : env.cancelled .completed = false
  intime : env.now .completed < value.deadline

variable {execution : Execution}

theorem Waiting.settled {closed : Prop} (waiting : Waiting execution) : Settled closed execution := by
  refine ⟨waiting.active, ?_⟩
  rw [waiting.terminal]
  exact ⟨nofun, fun _ => Or.inl waiting.undispatched, nofun⟩

theorem Open.settled {closed : Prop} (waits : Open execution) : Settled closed execution := by
  refine ⟨waits.active, ?_⟩
  rw [waits.terminal]
  refine ⟨nofun, absurd rfl, fun undispatched => ?_⟩
  rw [waits.dispatched] at undispatched
  cases undispatched

theorem Open.close {closed : Prop} {status : Status} (waits : Open execution) (shown : closed)
    (ended : status ≠ .running) :
    Settled closed (execution.apply (.terminal status)) := by
  refine ⟨waits.active, ended, fun _ => Or.inr shown, fun undispatched => ?_⟩
  change execution.dispatched = false at undispatched
  rw [waits.dispatched] at undispatched
  cases undispatched

theorem dispatch_ensures : Ensures Waiting (dispatchGeneration rules value env) (fun _ => Open)
    (Settled (Closed rules value env)) := by
  have waits : ∀ execution, Waiting execution → Settled (Closed rules value env) execution :=
    fun _ => Waiting.settled
  refine ensures_liftBind waits fun _ _ => ensures_liftBind waits fun _ _ => ?_
  refine ensures_performBind Waiting (fun _ _ => trivial)
    (fun _ waiting => ⟨waiting.active, waiting.undispatched, waiting.terminal, waiting.unrecorded⟩) ?_
  refine ensures_liftBind waits fun _ _ => ensures_liftBind waits fun _ _ => ?_
  -- The mark comes before the status, and nothing raises in between.
  refine ensures_performBind (fun execution => execution.active = true ∧ execution.dispatched = true)
    (fun _ waiting => waiting.unrecorded) (fun _ waiting => ⟨waiting.active, rfl⟩) ?_
  exact ensures_perform (fun _ _ => trivial) fun _ known => ⟨known.1, known.2, rfl⟩

variable {data : List UInt8}

theorem checkedBody_answered (exchanged : exchange value env = .ok ())
    (checked : checkedBody value env = .ok data) : Answered value env data := by
  obtain ⟨_, _, rest⟩ := bind_eq_ok.mp exchanged
  obtain ⟨_, _, rest⟩ := bind_eq_ok.mp rest
  obtain ⟨_, answered, readable⟩ := bind_eq_ok.mp rest
  unfold checkedBody at checked
  cases found : env.response.read (maxResponse + 1) with
  | none =>
    rw [found] at checked
    cases checked
  | some result =>
    rw [found] at checked
    obtain ⟨_, bounded, rest⟩ := bind_eq_ok.mp checked
    obtain ⟨_, looked, rest⟩ := bind_eq_ok.mp rest
    obtain ⟨_, ended, same⟩ := bind_eq_ok.mp rest
    cases same
    have looked := not_or.mp (require_eq_ok.mp looked)
    exact
      { answered := answered
        read := readable
        complete := HttpResponse.complete_of_read found (require_eq_ok.mp bounded) (require_eq_ok.mp ended)
        bounded := require_eq_ok.mp bounded
        uncancelled := Bool.eq_false_of_not_eq_true looked.1
        intime := not_le.mp looked.2 }

theorem failureReceipt_proven {receipt : Json} (found : failureReceipt rules value data = .ok receipt)
    (proven : provesClosure receipt = true) :
    ClosureProven rules value data := by
  obtain ⟨document, loaded, rest⟩ := bind_eq_ok.mp found
  cases failed : document.get "generation_failure" with
  | none =>
    rw [failed] at rest
    cases rest
  | some failure =>
    rw [failed] at rest
    refine ⟨document, failure, receipt, loaded, failed, ?_, proven⟩
    cases checked : validateGenerationFailure (rules.evidenceDigest value.payload) value.id none failure with simp only [checked] at rest
    | error error =>
      cases rest
    | ok same =>
      cases rest
      rfl

theorem Answered.closed (answered : Answered value env data)
    (rejected : value.controlled = true → env.response.status ≠ 200 → ClosureProven rules value data) :
    Closed rules value env :=
  ⟨answered.answered, answered.read, data, answered.complete, answered.bounded, answered.uncancelled,
    answered.intime, rejected⟩

theorem concludeResponse_ensures (answered : Answered value env data) :
    Ensures Open (concludeResponse rules value env data) (fun _ => Settled (Closed rules value env))
      (Settled (Closed rules value env)) := by
  have waits : ∀ execution, Open execution → Settled (Closed rules value env) execution :=
    fun _ => Open.settled
  have traced : ∀ {call : WorkerCall} {answer : ℕ × Completion},
      Ensures (Settled (Closed rules value env))
        (lift (env.call call) >>= fun _ => pure answer : WorkerScript rules value env (ℕ × Completion))
        (fun _ => Settled (Closed rules value env)) (Settled (Closed rules value env)) :=
    ensures_liftBind (fun _ settled => settled) fun _ _ => ensures_done fun _ settled => settled
  refine ensures_ite (fun rejected => ensures_ite (fun controlled => ?_) fun uncontrolled => ?_) fun accepted => ?_
  · refine ensures_liftBind waits fun receipt found => ?_
    refine ensures_performBind (Settled (Closed rules value env)) (fun _ _ => trivial)
      (fun execution waiting => ?_) traced
    cases proven : provesClosure receipt with
    | true => exact waiting.close (answered.closed fun _ _ => failureReceipt_proven found proven) (by rintro ⟨⟩)
    | false => exact Open.settled ⟨waiting.active, waiting.dispatched, rfl⟩
  · refine ensures_performBind (Settled (Closed rules value env)) (fun _ _ => trivial)
      (fun execution waiting => ?_) (ensures_raise fun _ settled => settled)
    exact waiting.close (answered.closed fun controlled => absurd controlled uncontrolled) (by rintro ⟨⟩)
  · refine ensures_liftBind waits fun result _ => ?_
    refine ensures_performBind (Settled (Closed rules value env)) (fun _ _ => trivial)
      (fun execution waiting => ?_) traced
    exact waiting.close (answered.closed fun _ rejected => absurd rejected accepted) (by rintro ⟨⟩)

theorem generation_ensures : Ensures Waiting (generation rules value env)
    (fun _ => Settled (Closed rules value env)) (Settled (Closed rules value env)) := by
  refine ensures_bind (fun _ => Open) dispatch_ensures fun _ => ?_
  refine ensures_liftBind (fun _ => Open.settled) fun _ exchanged => ?_
  refine ensures_liftBind (fun _ => Open.settled) fun data checked => ?_
  exact concludeResponse_ensures (checkedBody_answered exchanged checked)

theorem generationError_ensures {raised : Raised} {closed : Execution → Prop} :
    Ensures closed (generationError rules value env raised) (fun _ => closed) closed := by
  refine ensures_ite (fun _ => ?_) fun _ => ensures_raise fun _ settled => settled
  exact ensures_liftBind (fun _ settled => settled) fun _ _ => ensures_done fun _ settled => settled

/-- `finish_generation` writes a status that fits, or the disk refuses it. -/
theorem finish_ensures {finishing : Finishing} {status : Status} :
    Ensures (fun execution => execution.active = true ∧ Fits (Closed rules value env) execution status)
      (finishGeneration rules value env finishing status) (fun _ execution => execution.recorded ≠ [])
      (fun execution => execution.recorded ≠ [] ∨ execution.active = true ∧ ∃ raised, finishing = .refused raised) := by
  have written : ∀ execution : Execution, (execution.apply (.write status)).recorded ≠ [] :=
    fun _ => List.concat_ne_nil _ _
  refine ensures_read fun execution known => ensures_ite (fun _ => ?_) fun inactive => absurd known.1 inactive
  have legal : ∀ other, other = execution →
      (executions (Closed rules value env)).legal other (.write status) := fun _ same => same ▸ known.2
  cases finishing with
  | refused raised => exact ensures_raise fun _ same => Or.inr ⟨same ▸ known.1, raised, rfl⟩
  | unsynced raised =>
    exact ensures_performBind (fun execution => execution.recorded ≠ []) legal (fun other _ => written other)
      (ensures_raise fun _ recorded => Or.inl recorded)
  | written traced =>
    refine ensures_performBind (fun execution => execution.recorded ≠ []) legal (fun other _ => written other) ?_
    refine ensures_performBind (fun execution => execution.recorded ≠ []) (fun _ _ => trivial)
      (fun _ recorded => recorded) ?_
    exact ensures_lift (fun _ recorded _ _ => recorded) fun _ recorded => Or.inl recorded

theorem generationEnd_ensures : Ensures (Settled (Closed rules value env)) (generationEnd rules value env)
    (fun _ execution => execution.recorded ≠ []) Kept := by
  refine ensures_read fun execution settled => ensures_liftBind (fun _ same => Or.inl (same ▸ settled.active))
    fun _ _ => ?_
  refine finish_ensures.weaken ?_ (fun _ _ recorded => recorded) fun _ ends =>
    ends.elim Or.inr fun refused => Or.inl refused.1
  rintro _ rfl
  exact ⟨settled.active, settled.fits⟩

theorem executeGeneration_ensures : Ensures Waiting (executeGeneration rules value env)
    (fun _ execution => execution.recorded ≠ []) Kept := by
  refine ensures_liftBind (fun _ waiting => Or.inl waiting.active) fun _ _ => ?_
  refine ensures_lastly (ensures_attempt generation_ensures fun _ => generationError_ensures) (fun _ => ?_) ?_
  · exact generationEnd_ensures
  · exact generationEnd_ensures.weaken (fun _ settled => settled) (fun _ _ recorded => Or.inr recorded)
      fun _ kept => kept

theorem Fits.fallback {closed : Prop} (execution : Execution) :
    Fits closed execution (if execution.dispatched then .uncertain else .failed) := by
  cases marked : execution.dispatched with
  | true =>
    exact ⟨nofun, absurd rfl,
      fun undispatched => (by rw [marked] at undispatched; cases undispatched)⟩
  | false => exact ⟨nofun, fun _ => Or.inl marked, nofun⟩

theorem submitWorker_ensures : Ensures Waiting (submitWorker rules value env)
    (fun _ execution => execution.recorded ≠ [])
    (fun execution => execution.recorded ≠ [] ∨ ∃ raised, env.fallback = .refused raised) := by
  refine ensures_attempt executeGeneration_ensures fun _ => ensures_read fun execution kept => ?_
  refine ensures_ite (fun active => ?_) fun inactive => ensures_done fun _ same => ?_
  · refine ensures_bind (fun _ execution => execution.recorded ≠ []) ?_ fun _ =>
      ensures_done fun _ recorded => recorded
    refine finish_ensures.weaken ?_ (fun _ _ recorded => recorded) fun _ ends => ends.imp_right And.right
    rintro _ rfl
    exact ⟨active, Fits.fallback _⟩
  · subst same
    exact kept.resolve_left inactive

theorem caller_legal (caller : Caller) : (executions (Closed rules value env)).Legal Execution.admitted
    ((caller.run rules value env).run Execution.admitted).1 := by
  have waiting : Waiting Execution.admitted := ⟨rfl, rfl, rfl, rfl⟩
  cases caller with
  | submit => exact submitWorker_ensures.legal waiting
  | generate => exact executeGeneration_ensures.legal waiting

theorem fits_kept {closed : Prop} (execution : Execution) (op : ExecutionOp)
    (legal : (executions closed).legal execution op)
    (fits : ∀ status ∈ execution.recorded, Fits closed execution status) :
    ∀ status ∈ ((executions closed).apply execution op).recorded,
      Fits closed ((executions closed).apply execution op) status := by
  have same : ∀ {status} {other : Execution}, other.dispatched = execution.dispatched →
      Fits closed execution status → Fits closed other status := fun marked known =>
    ⟨known.ended, fun certain => marked ▸ known.certain certain, fun open_ => known.undispatched (marked ▸ open_)⟩
  cases op with
  | connection | terminal | leave => exact fun status mem => same rfl (fits status mem)
  | dispatch =>
    intro status mem
    change status ∈ execution.recorded at mem
    rw [show execution.recorded = [] from legal] at mem
    cases mem
  | write other =>
    intro status mem
    rcases List.mem_append.mp mem with before | new
    · exact same rfl (fits status before)
    · rw [List.mem_singleton.mp new]
      exact same rfl legal

end Ensured

/-! ### Which status is written -/

/-- **A certain status is written only for a request that was not dispatched or is closed; otherwise the
status is uncertain, and it is not uncertain before the dispatch.** The caller may be stopped after any
number of its operations. -/
theorem execute_generation_status (caller : Caller) (count : ℕ) :
    let ended := (executions (Closed rules value env)).replay Execution.admitted
      (((caller.run rules value env).run Execution.admitted).1.take count)
    ∀ status ∈ ended.recorded, (status.Certain ∨ status = .uncertain) ∧
      (status.Certain → ended.dispatched = false ∨ Closed rules value env) ∧
      (¬ (ended.dispatched = false ∨ Closed rules value env) → status = .uncertain) ∧
      (ended.dispatched = false → status ≠ .uncertain) := by
  intro ended status member
  have legal : (executions (Closed rules value env)).Legal Execution.admitted
      ((caller.run rules value env).run Execution.admitted).1 := caller_legal caller
  have path := Storage.evolves_stopped legal count
  have fits : ∀ status ∈ ended.recorded, Fits (Closed rules value env) ended status :=
    path.keeps (fun execution => ∀ status ∈ execution.recorded, Fits (Closed rules value env) execution status)
      fits_kept nofun
  obtain ⟨known, certain, undispatched⟩ := fits status member
  refine ⟨?_, fun sure => certain ?_, fun neither => ?_, undispatched⟩
  · cases status with
    | running => exact absurd rfl known
    | uncertain => exact Or.inr rfl
    | finished => exact Or.inl (Or.inl rfl)
    | failed => exact Or.inl (Or.inr (Or.inl rfl))
    | cancelled => exact Or.inl (Or.inr (Or.inr rfl))
  · rintro rfl
    rcases sure with wrong | wrong | wrong <;> cases wrong
  · by_contra known
    exact neither (certain known)

/-! ### A finished generation -/

def sampleBody : List UInt8 := "\x7b\"choices\": []\x7d".toList.map fun letter => UInt8.ofNat letter.toNat

def sampleWorkerRules : WorkerRules Unit where
  loads data := if data = sampleBody then .ok (object [("choices", .list [])]) else .error (.value "Expecting value")
  evidenceDigest := fun _ => ""

def sampleWorkerRequest : WorkerRequest Unit := ⟨sampleId.text, (), true, 10⟩

def sampleSurroundings : Surroundings where
  call := fun _ => .ok ()
  cancelled := fun _ => false
  now := fun _ => 1
  response := ⟨200, .length sampleBody.length, sampleBody, false⟩
  finish := .written (.ok ())
  fallback := .written (.ok ())

/-- The finished generation was closed. -/
theorem execute_generation_status_finished :
    Closed sampleWorkerRules sampleWorkerRequest sampleSurroundings :=
  ((execute_generation_status sampleWorkerRules sampleWorkerRequest sampleSurroundings .submit 10 .finished
    (by decide +kernel)).2.1 (Or.inl rfl)).resolve_left (by decide +kernel)

end TinyDSV41.Relay
