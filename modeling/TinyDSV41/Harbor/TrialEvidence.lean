/-
**What a finished trial says of its model requests.**

The agent keeps for every generation a `*.request.json`, written before the request is published, and a
`*.state.json`, written when the call is left. `execute` reads the records of the trial directory that
Harbor leaves and derives the request state of the episode. The ids of the published requests come from
`classify_trial`, which reads four files in a row and has no ids where one of them cannot be read.

* `classifyTrial`, `Trial.requestState`, `Job.requestState` — the part of `classify_trial` and of
  `execute` that decides the request state.
* `Resolved` — a record settles its request, from the files of the trial.
* `requestState_covers_iff` — when a certain request state covers every published request.

`read_json` answers with an object, or raises; files that are missing or cannot be read count alike.
The form of a receipt (its keys, types and patterns) is that of its type.
-/

import TinyDSV41.Coordinator.Contracts
import Mathlib.Data.List.Nodup

namespace TinyDSV41.Harbor

open List Coordinator Value

/-! ### The files of a trial -/

def isRequestId (text : String) : Bool :=
  text.toList.length == 32 && text.toList.all fun letter => letter.isDigit || 'a' ≤ letter && letter ≤ 'f'

/-- The states in which `AsyncFileRelay.generate` leaves a request. -/
inductive RelayState
  | errorBeforePublication
  | cancelledBeforePublication
  | publishedOutcomeUnknown
  | cancelledOutcomeUnknown
  | deadlineExpiredOutcomeUnknown
  | responseReceived
  | terminalFailureReceived
deriving DecidableEq

def RelayState.text : RelayState → String
  | .errorBeforePublication => "error_before_publication"
  | .cancelledBeforePublication => "cancelled_before_publication"
  | .publishedOutcomeUnknown => "published_outcome_unknown"
  | .cancelledOutcomeUnknown => "cancelled_outcome_unknown"
  | .deadlineExpiredOutcomeUnknown => "deadline_expired_outcome_unknown"
  | .responseReceived => "response_received"
  | .terminalFailureReceived => "terminal_failure_received"

/-- The request was linked into the inbox. -/
def RelayState.published : RelayState → Bool
  | .errorBeforePublication | .cancelledBeforePublication => false
  | _ => true

/-- The policy that a receipt or a lease names. -/
structure PolicyAck where
  version : ℕ
  digest : String
  lineage : String
deriving DecidableEq

/-- The outcomes that a receipt may name. -/
inductive SamplerOutcome
  | notAdmitted
  | completed
  | unknown
deriving DecidableEq

def SamplerOutcome.text : SamplerOutcome → String
  | .notAdmitted => "not_admitted"
  | .completed => "completed"
  | .unknown => "unknown"

/-- A generation-failure receipt of the right form. -/
structure FailureReceipt where
  requestId : String
  requestPayloadSha256 : String
  policyAck : PolicyAck
  stage : String
  samplerOutcome : SamplerOutcome
  samplerDrained : Bool
  actualActorDrainProven : Bool
  proofKind : String
deriving DecidableEq

def FailureReceipt.mapping (receipt : FailureReceipt) : Mapping :=
  [("schema_version", .number 1), ("request_id", .text receipt.requestId),
    ("request_payload_sha256", .text receipt.requestPayloadSha256),
    ("policy_ack", .mapping [("version", .number receipt.policyAck.version),
      ("digest", .text receipt.policyAck.digest), ("lineage", .text receipt.policyAck.lineage)]),
    ("stage", .text receipt.stage), ("sampler_outcome", .text receipt.samplerOutcome.text),
    ("sampler_drained", .bool receipt.samplerDrained),
    ("actual_actor_drain_proven", .bool receipt.actualActorDrainProven),
    ("drain_scope", .text "request"), ("proof_kind", .text receipt.proofKind),
    ("automatic_replay", .bool false)]

/-- `failure_is_terminal` of a receipt of the right form. -/
def FailureReceipt.isTerminal (receipt : FailureReceipt) : Bool :=
  receipt.samplerDrained && receipt.actualActorDrainProven && (receipt.samplerOutcome == .notAdmitted &&
        receipt.proofKind == "controller_rejected_before_sampler_dispatch" ||
      receipt.samplerOutcome == .completed && receipt.proofKind == "owned_vllm_final_request_output")

/-- A readable `*.request.json`. -/
structure Request (Payload : Type) where
  id : String
  payload : Payload
deriving DecidableEq

/-- A readable `*.state.json`: the receipt and the payload digest are there where a receipt was
validated. -/
structure StateRecord where
  id : String
  state : RelayState
  failure : Option (FailureReceipt × String)
  named : isRequestId id = true
deriving DecidableEq

/-- What Harbor and the agent leave: files that `read_json` may be unable to read, and the listing of
`agent/file-relay`. A record is under the name of its request. -/
structure Trial (Payload : Type) where
  result : Option (Option Mapping)
  pouchEnvironment : Option Mapping
  offlineBootstrap : Option Mapping
  verifierTerminal : Option Mapping
  agentResult : Option Mapping
  requests : List (String × Option (Request Payload))
  states : List (String × Option StateRecord)
  /-- The training records that equal the traces of the episode, with their paths and digests. -/
  training : List (String × String × String)
  named : ∀ entry ∈ states, ∀ record, entry.2 = some record → record.id = entry.1
  distinct : (states.map Prod.fst).Nodup

/-- What the checks need to know besides: the digest of a payload, the policy of the lease, the task. -/
structure Rules (Payload : Type) where
  evidenceDigest : Payload → String
  expectedAck : Option PolicyAck
  isName : String → Bool
  taskId : String

section Trial

variable {Payload : Type} (rules : Rules Payload) (trial : Trial Payload)

/-! ### classify_trial -/

/-- The texts of a list of ids, if it is a valid one. -/
def validIds (ids : Option Value) : Option (List String) :=
  match ids with
  | some (.list items) =>
    if items.length ≤ 1024 then
      items.mapM fun
        | .text id => if isRequestId id then some id else none
        | _ => none
    else none
  | _ => none

/-- The part of the row that the request state and the cleanup depend on. -/
structure Row where
  taskId : String
  cleanupVerified : Bool
  requestIds : List String
deriving DecidableEq

/-- The ids that `classify_trial` reaches: behind four files that can be read. -/
def reachedIds : Option (List String) := do
  let _ ← trial.pouchEnvironment
  let _ ← trial.offlineBootstrap
  let _ ← trial.verifierTerminal
  let agent ← trial.agentResult
  validIds (agent.get "request_ids")

/-- `classify_trial`; what it raises behind the result is kept in the row. -/
def classifyTrial : Option Row := do
  let result ← trial.result.join
  match result.get "task_name" with
  | some (.text task) =>
    if rules.isName task then
      some ⟨task, (trial.pouchEnvironment.bind fun receipt => receipt.get "cleanup_verified").any
        isTrue, (reachedIds trial).getD []⟩
    else none
  | _ => none
where
  /-- `value is True`. -/
  isTrue : Value → Bool
    | .bool true => true
    | _ => false

/-! ### The request state -/

/-- `validate_generation_failure` of a receipt of the right form. -/
def validateGenerationFailure (receipt : FailureReceipt) (payload : Payload) (id : String) : Bool :=
  receipt.requestId == id && isRequestId id &&
    receipt.requestPayloadSha256 == rules.evidenceDigest payload &&
    (rules.expectedAck.all fun ack => receipt.policyAck == ack) &&
    if receipt.samplerOutcome = .unknown then
      receipt.proofKind == "none" && !receipt.samplerDrained && !receipt.actualActorDrainProven
    else receipt.isTerminal

/-- A terminal failure is closed by the receipt of its record and by its request. -/
def closes (record : StateRecord) : Bool :=
  match trial.requests.lookup record.id, record.failure with
  | some (some request), some (receipt, payloadSha256) =>
    validateGenerationFailure rules receipt request.payload record.id && request.id == record.id &&
      payloadSha256 == receipt.requestPayloadSha256 && receipt.isTerminal
  | _, _ => false

/-- The text that is derived for a record. -/
def derivedText (record : StateRecord) : String :=
  if record.state = .terminalFailureReceived ∧ closes rules trial record = false then
    "terminal_failure_closure_unknown"
  else record.state.text

/-- The JSON of a record, with the derived text, and with its training record. -/
def stateMapping (record : StateRecord) : Mapping :=
  [("id", .text record.id), ("published", .bool record.state.published),
    ("state", .text (derivedText rules trial record)), ("replayed", .bool false),
    ("remote_cancellation_proven", .bool false)] ++
  (match record.failure with
    | none => []
    | some (receipt, payloadSha256) => [("generation_failure", .text "validated"),
        ("failure_receipt", .mapping receipt.mapping),
        ("request_payload_sha256", .text payloadSha256)]) ++
  (if record.state = .responseReceived then
    match trial.training.lookup record.id with
    | none => []
    | some (path, sha256) => [("training_evidence", .text "validated"),
        ("training_record", .text path), ("training_record_sha256", .text sha256)]
  else [])

def readStates : Option (List StateRecord) := trial.states.mapM Prod.snd

/-- `"unknown" in text`. -/
def mentionsUnknown (text : String) : Bool := decide ("unknown".toList <:+: text.toList)

/-- The request state of the listed ids and the records. Distinct names: no record replaces another. -/
def derivedState (requestIds : List String) (states : List StateRecord) : Mapping :=
  let uncertain := (states.any fun record => mentionsUnknown (derivedText rules trial record)) ||
    requestIds.any fun id => id ∉ states.map StateRecord.id
  [("state", .text (if uncertain then "outcome_unknown"
      else if states.any fun record => derivedText rules trial record == "terminal_failure_received"
      then "terminal_failures_closed" else "response_received")),
    ("requests", .mapping (states.map fun record =>
      (record.id, .mapping (stateMapping rules trial record)))),
    ("remote_cancellation_proven", .bool false)]

/-- The result of a trial whose `result.json` is there: none where `execute` raises. -/
def Trial.requestState : Option Mapping := do
  let row ← classifyTrial rules trial
  if row.taskId ≠ rules.taskId then none
  let states ← readStates trial
  some (derivedState rules trial row.requestIds states)

end Trial

/-- A job of one attempt without retries; a job that was not started has no trial. -/
structure Job (Payload : Type) where
  started : Bool
  trials : List (Trial Payload)
  single : trials.length ≤ 1
  unstarted : started = false → trials = []

/-- The request state of the result of `execute`. -/
def Job.requestState {Payload : Type} (rules : Rules Payload) (job : Job Payload) : Option Mapping :=
  match job.trials.filter fun trial => trial.result.isSome with
  | [trial] => trial.requestState rules
  | _ => some [("state", .text (if job.started then "outcome_unknown" else "not_submitted"))]

/-! ### What a record says -/

section Records

variable {Payload : Type} {rules : Rules Payload} {trial : Trial Payload} {record : StateRecord}
  {receipt : FailureReceipt}

def Resolved (rules : Rules Payload) (trial : Trial Payload) (record : StateRecord) : Prop :=
  match record.state with
  | .errorBeforePublication | .cancelledBeforePublication | .responseReceived => True
  | .terminalFailureReceived => closes rules trial record = true
  | .publishedOutcomeUnknown | .cancelledOutcomeUnknown | .deadlineExpiredOutcomeUnknown => False

theorem failureIsTerminal_mapping (receipt : FailureReceipt) :
    failureIsTerminal receipt.mapping = some receipt.isTerminal := by
  have drained : Mapping.get receipt.mapping "sampler_drained"
      = some (.bool receipt.samplerDrained) := rfl
  have proven : Mapping.get receipt.mapping "actual_actor_drain_proven"
      = some (.bool receipt.actualActorDrainProven) := rfl
  have outcome : Mapping.get receipt.mapping "sampler_outcome"
      = some (.text receipt.samplerOutcome.text) := rfl
  have proof : Mapping.get receipt.mapping "proof_kind" = some (.text receipt.proofKind) := rfl
  unfold failureIsTerminal FailureReceipt.isTerminal
  rw [drained, proven, outcome, proof]
  cases receipt.samplerDrained with
  | false => rfl
  | true =>
    cases receipt.actualActorDrainProven with
    | false => rfl
    | true => cases receipt.samplerOutcome <;> simp [failureIsTerminal.isTrue, pyEq,
        SamplerOutcome.text]

theorem receipt_resolved (receipt : FailureReceipt) :
    (mapping receipt.mapping).unresolved = false := by
  simp [FailureReceipt.mapping, unresolved, anyUnresolved, unresolvedHere,
    unresolvedHere.flagged, Mapping.get, pyEq, str, mentions]

theorem stateMapping_get (rules : Rules Payload) (trial : Trial Payload) (record : StateRecord) :
    (stateMapping rules trial record).get "uncertain" = none ∧
    (stateMapping rules trial record).get "spool_terminal" = none ∧
    (stateMapping rules trial record).get "delivery_state" = none ∧
    (stateMapping rules trial record).get "state" = some (.text (derivedText rules trial record)) ∧
    (stateMapping rules trial record).get "id" = some (.text record.id) := by
  unfold stateMapping
  cases record.failure with
  | none | some =>
    cases trial.training.lookup record.id with
    | none => simp [Mapping.get]
    | some saved => split_ifs <;> simp [Mapping.get]

theorem stateMapping_failure (rules : Rules Payload) (trial : Trial Payload) {payloadSha256 : String}
    (failed : record.failure = some (receipt, payloadSha256)) :
    (stateMapping rules trial record).get "generation_failure" = some (.text "validated") ∧
    (stateMapping rules trial record).get "failure_receipt" = some (.mapping receipt.mapping) ∧
    (stateMapping rules trial record).get "request_payload_sha256" = some (.text payloadSha256) := by
  unfold stateMapping
  simp [failed, Mapping.get]

theorem stateMapping_nested : anyUnresolved (stateMapping rules trial record) = false := by
  have append : ∀ first second : Mapping,
      anyUnresolved (first ++ second) = (anyUnresolved first || anyUnresolved second) := by
    intro first second
    induction first with
    | nil => simp [anyUnresolved]
    | cons entry rest known => simp [anyUnresolved, known, Bool.or_assoc]
  unfold stateMapping
  rw [append, append]
  have head : anyUnresolved [("id", .text record.id), ("published", .bool record.state.published),
      ("state", .text (derivedText rules trial record)), ("replayed", .bool false),
      ("remote_cancellation_proven", .bool false)] = false := by
    simp [anyUnresolved, unresolved]
  rw [head, Bool.false_or, Bool.or_eq_false_iff]
  constructor
  · split
    · rfl
    · simp only [anyUnresolved, receipt_resolved]
      rfl
  · split_ifs
    · split <;> simp [anyUnresolved, unresolved]
    · rfl

theorem failureUnproven_of_closes (closed : closes rules trial record = true) :
    failureUnproven (stateMapping rules trial record) = false := by
  unfold closes at closed
  split at closed
  case h_2 => cases closed
  case h_1 request receipt payloadSha256 known failed =>
    simp only [Bool.and_eq_true, beq_iff_eq] at closed
    obtain ⟨⟨⟨valid, -⟩, same⟩, final⟩ := closed
    unfold validateGenerationFailure at valid
    simp only [Bool.and_eq_true, beq_iff_eq] at valid
    obtain ⟨⟨⟨⟨named, -⟩, -⟩, -⟩, -⟩ := valid
    have proven := failureIsTerminal_mapping receipt
    have requestId : Mapping.get receipt.mapping "request_id" = some (.text record.id) := by
      rw [← named]
      rfl
    have payload : Mapping.get receipt.mapping "request_payload_sha256" = some (.text payloadSha256) := by
      rw [same]
      rfl
    obtain ⟨validated, there, digest⟩ := stateMapping_failure rules trial failed
    obtain ⟨-, -, -, -, id⟩ := stateMapping_get rules trial record
    unfold failureUnproven
    simp only [validated, there, digest, id, requestId, payload, proven, final, Option.getD_some]
    simp [pyEq]

theorem derivedText_resolved (resolved : Resolved rules trial record) :
    (derivedText rules trial record = "terminal_failure_received" ∧ closes rules trial record = true) ∨
      derivedText rules trial record ∈ ["error_before_publication", "cancelled_before_publication",
        "response_received"] := by
  unfold derivedText
  unfold Resolved at resolved
  cases state : record.state with
  | errorBeforePublication | cancelledBeforePublication | responseReceived =>
    right
    rw [if_neg (by simp)]
    simp [RelayState.text]
  | terminalFailureReceived =>
    rw [state] at resolved
    left
    rw [if_neg (by simp [show closes rules trial record = true from resolved])]
    exact ⟨rfl, resolved⟩
  | publishedOutcomeUnknown | cancelledOutcomeUnknown | deadlineExpiredOutcomeUnknown =>
    rw [state] at resolved
    cases resolved

theorem derivedText_unresolved (unresolved : ¬ Resolved rules trial record) :
    derivedText rules trial record ∈ ["terminal_failure_closure_unknown", "published_outcome_unknown",
      "cancelled_outcome_unknown", "deadline_expired_outcome_unknown"] := by
  unfold derivedText
  unfold Resolved at unresolved
  cases state : record.state with rw [state] at unresolved
  | errorBeforePublication | cancelledBeforePublication | responseReceived =>
    exact absurd trivial unresolved
  | terminalFailureReceived =>
    rw [if_pos ⟨rfl, Bool.not_eq_true _ ▸ unresolved⟩]
    simp
  | publishedOutcomeUnknown | cancelledOutcomeUnknown | deadlineExpiredOutcomeUnknown =>
    rw [if_neg (by simp)]
    simp [RelayState.text]

/-- A record is certain exactly if it is resolved. -/
theorem stateMapping_certain_iff : (mapping (stateMapping rules trial record)).unresolved = false ↔
      Resolved rules trial record := by
  obtain ⟨uncertain, spool, delivery, state, -⟩ := stateMapping_get rules trial record
  have here : (mapping (stateMapping rules trial record)).unresolved =
      ((pyEq (.text (derivedText rules trial record)) (.text "terminal_failure_received") &&
          failureUnproven (stateMapping rules trial record)) ||
        (mentions (derivedText rules trial record) "unknown" ||
          mentions (derivedText rules trial record) "uncertain")) := by
    have empty : mentions "" "unknown" = false ∧ mentions "" "uncertain" = false := by decide
    simp [unresolved, unresolvedHere, unresolvedHere.flagged, uncertain, spool, delivery, state,
      stateMapping_nested, str, empty]
  rw [here]
  constructor
  · intro certain
    by_contra unresolved
    have text := derivedText_unresolved unresolved
    simp only [mem_cons, not_mem_nil, or_false] at text
    rcases text with text | text | text | text
    all_goals
      rw [text] at certain
      revert certain
      rw [Bool.or_eq_false_iff, Bool.or_eq_false_iff]
      rintro ⟨-, wrong, -⟩
      exact absurd wrong (by decide)
  · intro resolved
    rcases derivedText_resolved resolved with ⟨text, closed⟩ | text
    · rw [text, failureUnproven_of_closes closed, Bool.and_false]
      decide
    · simp only [mem_cons, not_mem_nil, or_false] at text
      rcases text with text | text | text
      all_goals
        rw [text]
        simp [pyEq]
        decide

end Records

/-! ### What a request state covers -/

section Covering

variable {Payload : Type} {rules : Rules Payload} {trial : Trial Payload} {id : String}
  {records : List StateRecord} {state : Mapping}

/-- The trial holds a readable record of a request. -/
def Recorded (trial : Trial Payload) (id : String) : Prop :=
  ∃ record, (id, some record) ∈ trial.states

/-- A request was written, and no record says that it was not published. -/
def Published (trial : Trial Payload) (id : String) : Prop :=
  (∃ request, trial.requests.lookup id = some (some request)) ∧
    ∀ record, (id, some record) ∈ trial.states → record.state.published = true

/-- The agent's list of published ids names a request, and it and the three files that are read before
it can be read. -/
def Listed (trial : Trial Payload) (id : String) : Prop :=
  trial.pouchEnvironment.isSome = true ∧ trial.offlineBootstrap.isSome = true ∧
    trial.verifierTerminal.isSome = true ∧ ∃ agent ids, trial.agentResult = some agent ∧
      validIds (agent.get "request_ids") = some ids ∧ id ∈ ids

theorem mem_reachedIds : id ∈ (reachedIds trial).getD [] ↔ Listed trial id := by
  unfold reachedIds Listed
  cases trial.pouchEnvironment with
  | none => simp
  | some pouch =>
    cases trial.offlineBootstrap with
    | none => simp
    | some bootstrap =>
      cases trial.verifierTerminal with
      | none => simp
      | some terminal =>
        cases trial.agentResult with
        | none => simp
        | some agent =>
          cases ids : validIds (agent.get "request_ids") with
          | none | some ids => simp [ids]

/-- The records that are read are those of the listing. -/
theorem mem_readStates (read : readStates trial = some records) (record : StateRecord) :
    record ∈ records ↔ (record.id, some record) ∈ trial.states := by
  have entries : ∀ {listing : List (String × Option StateRecord)} {records : List StateRecord},
      listing.mapM Prod.snd = some records →
      ∀ record, record ∈ records ↔ ∃ name, (name, some record) ∈ listing := by
    intro listing
    induction listing with intro records read record
    | nil =>
      cases read
      simp
    | cons entry rest known =>
      rw [mapM_cons] at read
      obtain ⟨first, here, read⟩ := Option.bind_eq_some_iff.mp read
      obtain ⟨others, there, read⟩ := Option.bind_eq_some_iff.mp read
      cases read
      obtain ⟨name, content⟩ := entry
      cases here
      rw [mem_cons, known there record]
      constructor
      · rintro (rfl | ⟨other, mem⟩)
        · exact ⟨name, mem_cons_self⟩
        · exact ⟨other, mem_cons_of_mem _ mem⟩
      · rintro ⟨other, mem⟩
        rcases mem_cons.mp mem with same | mem
        · cases same
          exact Or.inl rfl
        · exact Or.inr ⟨other, mem⟩
  rw [entries read record]
  constructor
  · rintro ⟨name, mem⟩
    rw [trial.named _ mem record rfl]
    exact mem
  · exact fun mem => ⟨record.id, mem⟩

theorem recorded_iff (read : readStates trial = some records) :
    Recorded trial id ↔ id ∈ records.map StateRecord.id := by
  rw [mem_map]
  constructor
  · rintro ⟨record, mem⟩
    have same := trial.named _ mem record rfl
    exact ⟨record, (mem_readStates read record).mpr (by rw [same]; exact mem), same⟩
  · rintro ⟨record, mem, rfl⟩
    exact ⟨record, (mem_readStates read record).mp mem⟩

theorem keys_absent (key : String) (other : isRequestId key = false) (states : List StateRecord)
    (value : StateRecord → Value) :
    Mapping.get (states.map fun record => (record.id, value record)) key = none := by
  unfold Mapping.get
  rw [Option.map_eq_none_iff, find?_eq_none]
  intro entry mem same
  obtain ⟨record, -, rfl⟩ := mem_map.mp mem
  rw [decide_eq_true_iff] at same
  rw [← same, record.named] at other
  cases other

theorem anyUnresolved_records (states : List StateRecord) : anyUnresolved (states.map fun record =>
        (record.id, mapping (stateMapping rules trial record))) = false ↔
      ∀ record ∈ states, Resolved rules trial record := by
  induction states with
  | nil => simp [anyUnresolved]
  | cons record rest known =>
    rw [map_cons, anyUnresolved, Bool.or_eq_false_iff, stateMapping_certain_iff, known]
    simp

theorem requests_certain_iff (states : List StateRecord) : (mapping (states.map fun record =>
        (record.id, mapping (stateMapping rules trial record)))).unresolved = false ↔
      ∀ record ∈ states, Resolved rules trial record := by
  have absent : ∀ key ∈ ["uncertain", "spool_terminal", "state", "delivery_state"],
      Mapping.get (states.map fun record =>
        (record.id, mapping (stateMapping rules trial record))) key = none := by
    intro key mem
    have other : isRequestId key = false := by
      revert key
      decide
    exact keys_absent key other states _
  have here : unresolvedHere (states.map fun record =>
      (record.id, mapping (stateMapping rules trial record))) = false := by
    have empty : mentions "" "unknown" = false ∧ mentions "" "uncertain" = false := by decide
    unfold unresolvedHere
    rw [absent "uncertain" (by decide), absent "spool_terminal" (by decide), absent "state" (by decide)]
    simp [unresolvedHere.flagged, absent "delivery_state" (by decide), absent "state" (by decide),
      pyEq, str, empty]
  rw [unresolved, here, Bool.false_or]
  exact anyUnresolved_records states

theorem requestUncertain_state {text : String} (other : text ≠ "terminal_failure_received")
    (requests : Mapping) :
    requestUncertain (some [("state", .text text), ("requests", .mapping requests),
        ("remote_cancellation_proven", .bool false)]) =
      (mentions text "unknown" || mentions text "uncertain" || (mapping requests).unresolved) := by
  have empty : mentions "" "unknown" = false ∧ mentions "" "uncertain" = false := by decide
  have differs : (text == "terminal_failure_received") = false := beq_false_of_ne other
  rw [requestUncertain, unresolved]
  · simp only [anyUnresolved]
    generalize (mapping requests).unresolved = nested
    simp [unresolvedHere, unresolvedHere.flagged, Mapping.get, unresolved, str,
      pyEq, empty, differs]
  · simp

theorem mentionsUnknown_resolved {record : StateRecord} (resolved : Resolved rules trial record) :
    mentionsUnknown (derivedText rules trial record) = false := by
  rcases derivedText_resolved resolved with ⟨text, -⟩ | text
  · rw [text]
    decide
  · simp only [mem_cons, not_mem_nil, or_false] at text
    rcases text with text | text | text
    all_goals
      rw [text]
      decide

/-- A derived request state is certain exactly if every id has a record and every record is
resolved. -/
theorem derivedState_certain_iff (ids : List String) (states : List StateRecord) :
    requestUncertain (some (derivedState rules trial ids states)) = false ↔
      (∀ id ∈ ids, id ∈ states.map StateRecord.id) ∧ ∀ record ∈ states, Resolved rules trial record := by
  unfold derivedState
  by_cases unknown : ((states.any fun record => mentionsUnknown (derivedText rules trial record)) ||
    ids.any fun id => decide (id ∉ states.map StateRecord.id)) = true
  · simp only [if_pos unknown]
    rw [requestUncertain_state (by decide)]
    have here : mentions "outcome_unknown" "unknown" = true := by decide
    rw [here, Bool.true_or, Bool.true_or]
    refine ⟨fun wrong => absurd wrong (by decide), fun ⟨covered, resolved⟩ => ?_⟩
    rw [Bool.or_eq_true, any_eq_true, any_eq_true] at unknown
    rcases unknown with ⟨record, mem, text⟩ | ⟨id, mem, missing⟩
    · rw [mentionsUnknown_resolved (resolved record mem)] at text
      cases text
    · exact absurd (covered id mem) (of_decide_eq_true missing)
  · simp only [if_neg unknown]
    have covered : ∀ id ∈ ids, id ∈ states.map StateRecord.id := by
      intro id mem
      by_contra missing
      exact unknown (Bool.or_eq_true _ _ ▸ Or.inr (any_eq_true.mpr ⟨id, mem, decide_eq_true missing⟩))
    rw [← requests_certain_iff]
    split_ifs
    all_goals rw [requestUncertain_state (by decide)]
    · have here : mentions "terminal_failures_closed" "unknown" = false ∧
          mentions "terminal_failures_closed" "uncertain" = false := by decide
      rw [here.1, here.2, Bool.false_or, Bool.false_or]
      exact ⟨fun certain => ⟨covered, certain⟩, fun both => both.2⟩
    · have here : mentions "response_received" "unknown" = false ∧
          mentions "response_received" "uncertain" = false := by decide
      rw [here.1, here.2, Bool.false_or, Bool.false_or]
      exact ⟨fun certain => ⟨covered, certain⟩, fun both => both.2⟩

/-- What `execute` returns for a trial is derived from the ids that are reached and from its records. -/
theorem requestState_eq (returned : trial.requestState rules = some state) :
    ∃ records, readStates trial = some records ∧
      state = derivedState rules trial ((reachedIds trial).getD []) records := by
  unfold Trial.requestState at returned
  obtain ⟨row, classified, returned⟩ := Option.bind_eq_some_iff.mp returned
  have ids : row.requestIds = (reachedIds trial).getD [] := by
    unfold classifyTrial at classified
    obtain ⟨result, -, classified⟩ := Option.bind_eq_some_iff.mp classified
    split at classified
    case h_1 =>
      split_ifs at classified
      cases classified
      rfl
    case h_2 => cases classified
  simp only at returned
  split_ifs at returned
  · cases returned
  · obtain ⟨records, read, same⟩ := Option.bind_eq_some_iff.mp returned
    cases same
    exact ⟨records, read, by rw [ids]⟩

theorem trial_certain_iff (returned : trial.requestState rules = some state) :
    requestUncertain (some state) = false ↔ (∀ id, Listed trial id → Recorded trial id) ∧
        ∀ id record, (id, some record) ∈ trial.states → Resolved rules trial record := by
  obtain ⟨records, read, rfl⟩ := requestState_eq returned
  rw [derivedState_certain_iff]
  constructor
  · rintro ⟨covered, resolved⟩
    refine ⟨fun id listed => (recorded_iff read).mpr (covered id (mem_reachedIds.mpr listed)),
      fun id record mem => resolved record ((mem_readStates read record).mpr ?_)⟩
    rw [trial.named _ mem record rfl]
    exact mem
  · rintro ⟨covered, resolved⟩
    exact ⟨fun id mem => (recorded_iff read).mp (covered id (mem_reachedIds.mp mem)),
      fun record mem => resolved record.id record ((mem_readStates read record).mp mem)⟩

theorem record_certain_iff {record : StateRecord} :
    requestUncertain (some (stateMapping rules trial record)) = false ↔ Resolved rules trial record := by
  rw [← stateMapping_certain_iff, requestUncertain]
  simp [stateMapping]

theorem trial_covers_iff (returned : trial.requestState rules = some state) :
    (requestUncertain (some state) = false → ∀ id, Published trial id →
      ∃ record, (id, some record) ∈ trial.states ∧
        requestUncertain (some (stateMapping rules trial record)) = false) ↔
    (∀ id, Published trial id → Recorded trial id) ∨ (∃ id, Listed trial id ∧ ¬ Recorded trial id) ∨
      ∃ id record, (id, some record) ∈ trial.states ∧ ¬ Resolved rules trial record := by
  rw [trial_certain_iff returned]
  constructor
  · intro covers
    by_cases listed : ∀ id, Listed trial id → Recorded trial id
    · by_cases resolved : ∀ id record, (id, some record) ∈ trial.states → Resolved rules trial record
      · left
        intro id published
        obtain ⟨record, mem, -⟩ := covers ⟨listed, resolved⟩ id published
        exact ⟨record, mem⟩
      · push Not at resolved
        exact Or.inr (Or.inr resolved)
    · push Not at listed
      exact Or.inr (Or.inl listed)
  · rintro (recorded | ⟨id, listed, missing⟩ | ⟨id, record, mem, unresolved⟩) ⟨covered, resolved⟩
    · intro id published
      obtain ⟨record, mem⟩ := recorded id published
      exact ⟨record, mem, record_certain_iff.mpr (resolved id record mem)⟩
    · exact absurd (covered id listed) missing
    · exact absurd (resolved id record mem) unresolved

/-- **What a certain request state covers.** Where `execute` returns, a certain request state has a
certain record for every published request exactly if, in the trial whose result is read, every
published request has a record, or a listed request has none, or a record is unresolved. -/
theorem requestState_covers_iff (rules : Rules Payload) (job : Job Payload) (state : Mapping)
    (returned : job.requestState rules = some state) :
    (requestUncertain (some state) = false → ∀ trial ∈ job.trials, ∀ id, Published trial id →
      ∃ record, (id, some record) ∈ trial.states ∧
        requestUncertain (some (stateMapping rules trial record)) = false) ↔
    ∀ trial ∈ job.trials, trial.result.isSome = true → (∀ id, Published trial id → Recorded trial id) ∨
      (∃ id, Listed trial id ∧ ¬ Recorded trial id) ∨
      ∃ id record, (id, some record) ∈ trial.states ∧ ¬ Resolved rules trial record := by
  obtain ⟨started, trials, single, unstarted⟩ := job
  -- One attempt leaves at most one trial.
  cases trials with
  | nil => simp
  | cons trial rest =>
    have only : rest = [] := by
      rw [length_cons] at single
      exact eq_nil_of_length_eq_zero (by omega)
    subst only
    have running : started = true := by
      rw [← Bool.not_eq_false]
      intro idle
      cases unstarted idle
    simp only [mem_singleton, forall_eq]
    cases finished : trial.result.isSome with
    | false =>
      simp only [Job.requestState, filter_cons, finished, running] at returned
      cases returned
      have uncertain : requestUncertain (some [("state", .text "outcome_unknown")]) = true := by
        decide
      rw [if_pos trivial, uncertain]
      simp
    | true =>
      simp only [Job.requestState, filter_cons, finished] at returned
      rw [trial_covers_iff returned]
      simp

end Covering

/-! ### A request with and without a record -/

def sampleRequestId : String := "0123456789abcdef0123456789abcdef"

def plainRules : Rules String := ⟨id, none, fun _ => true, "task"⟩

def sampleTrial (states : List StateRecord) (distinct : (states.map StateRecord.id).Nodup) :
    Trial String where
  result := some (some [("task_name", .text "task")])
  pouchEnvironment := some [("cleanup_verified", .bool true)]
  offlineBootstrap := some [("preprovisioned", .bool true)]
  verifierTerminal := some [("terminal_proven_by_provider", .bool true)]
  agentResult := none
  requests := [(sampleRequestId, some ⟨sampleRequestId, "payload"⟩)]
  states := states.map fun record => (record.id, some record)
  training := []
  named entry member record same := by
    obtain ⟨found, -, rfl⟩ := mem_map.mp member
    exact congrArg StateRecord.id (Option.some.inj same).symm
  distinct := by simpa [Function.comp_def] using distinct

def sampleJob (trial : Trial String) : Job String := ⟨true, [trial], by simp, by simp⟩

/-- Neither the record nor the agent's result could be written: the request state is certain, and the
published request has no record. -/
theorem unrecorded_looks_resolved : ∃ state,
    (sampleJob (sampleTrial [] (by decide))).requestState plainRules = some state ∧
      requestUncertain (some state) = false ∧
      Published (sampleTrial [] (by decide)) sampleRequestId ∧
      ¬ Recorded (sampleTrial [] (by decide)) sampleRequestId := by
  refine ⟨_, rfl, by decide, ⟨⟨⟨sampleRequestId, "payload"⟩, rfl⟩, fun record member => ?_⟩, ?_⟩
  · cases member
  · rintro ⟨record, member⟩
    cases member

def sampleRecord : StateRecord := ⟨sampleRequestId, .responseReceived, none, by decide⟩

theorem requestState_covers_recorded : ∃ state,
    (sampleJob (sampleTrial [sampleRecord] (by decide))).requestState plainRules = some state ∧
      (requestUncertain (some state) = false → ∀ trial ∈ [sampleTrial [sampleRecord] (by decide)],
        ∀ id, Published trial id → ∃ record, (id, some record) ∈ trial.states ∧
          requestUncertain (some (stateMapping plainRules trial record)) = false) := by
  refine ⟨_, rfl, (requestState_covers_iff plainRules
    (sampleJob (sampleTrial [sampleRecord] (by decide))) _ rfl).mpr fun trial member _ => ?_⟩
  obtain rfl := mem_singleton.mp member
  left
  rintro id ⟨⟨request, there⟩, -⟩
  have same : id = sampleRequestId := by
    by_contra other
    simp [sampleTrial, lookup_cons, beq_false_of_ne other] at there
  subst same
  exact ⟨sampleRecord, mem_singleton_self _⟩

end TinyDSV41.Harbor
