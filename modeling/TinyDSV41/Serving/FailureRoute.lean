/-
**The way of a failure receipt to the coordinator.**

The GPU relay checks the receipt in the answer of the shim and passes it on; the CPU relay checks it
against the claimed job and commits it; the agent checks it against its request and writes the state
file of the request; the review of the episode checks it once more, and the coordinator looks at what
is left. On its way a receipt may be lost, doubled, late or given to another request, but no one writes
one of its own.

* `Route.step`, `routeSystem` — the way from the shim to the state files.
* `review`, `requestUncertain` — the review of an episode, and the question of the coordinator.
* `receipts_attest` — a request that is certain for the coordinator was never sampled, or had returned
  when its receipt was made; it is not sampled later.
-/

import TinyDSV41.Serving.FailureReceipts
import Mathlib.Data.List.Infix

namespace TinyDSV41.Serving

open List Lib Lib.Threads Option Bool System
open Relay (Id sampleId)

variable {Payload : Type}

/-! ### The state files -/

/-- `state` of a request. -/
inductive RequestState
  | errorBeforePublication
  | cancelledBeforePublication
  | publishedOutcomeUnknown
  | cancelledOutcomeUnknown
  | deadlineExpiredOutcomeUnknown
  | responseReceived
  | terminalFailureReceived
  /-- The review does not accept the closure. -/
  | terminalFailureClosureUnknown
deriving DecidableEq

def RequestState.text : RequestState → String
  | .errorBeforePublication => "error_before_publication"
  | .cancelledBeforePublication => "cancelled_before_publication"
  | .publishedOutcomeUnknown => "published_outcome_unknown"
  | .cancelledOutcomeUnknown => "cancelled_outcome_unknown"
  | .deadlineExpiredOutcomeUnknown => "deadline_expired_outcome_unknown"
  | .responseReceived => "response_received"
  | .terminalFailureReceived => "terminal_failure_received"
  | .terminalFailureClosureUnknown => "terminal_failure_closure_unknown"

/-- The state file of a request; a receipt is there when it was validated. -/
structure RequestRecord where
  id : Id
  published : Bool
  state : RequestState
  failureReceipt : Option FailureReceipt
  requestPayloadSha256 : Option String

/-- What the CPU relay commits for a claimed job. -/
inductive RelayResult
  | response
  | error (failure : Option FailureReceipt)

inductive RequestPlace
  | written
  | published
  | recorded (record : RequestRecord)

/-- A request of the agent, with the policy that its relay expects. -/
structure AgentRequest (Payload : Type) where
  id : Id
  payload : Payload
  expectedPolicyAck : Option PolicyAck
  place : RequestPlace

/-- What the agent makes of the result of its request. -/
def readResult (rules : ServingRules Payload) (request : AgentRequest Payload) :
    RelayResult → RequestRecord
  | .response => ⟨request.id, true, .responseReceived, none, none⟩
  | .error none => ⟨request.id, true, .publishedOutcomeUnknown, none, none⟩
  | .error (some receipt) =>
    if validateGenerationFailure receipt (rules.evidenceDigest request.payload) request.id
        request.expectedPolicyAck = true then
      ⟨request.id, true,
        if failureIsTerminal receipt = true then .terminalFailureReceived
        else .publishedOutcomeUnknown,
        some receipt, some receipt.requestPayloadSha256⟩
    else ⟨request.id, true, .publishedOutcomeUnknown, none, none⟩

/-- What the agent writes of a request that it gives up. -/
def giveUp (request : AgentRequest Payload) (published cancelled expired : Bool) : RequestRecord :=
  ⟨request.id, published,
    match published, cancelled, expired with
    | false, true, _ => .cancelledBeforePublication
    | false, false, _ => .errorBeforePublication
    | true, true, _ => .cancelledOutcomeUnknown
    | true, false, true => .deadlineExpiredOutcomeUnknown
    | true, false, false => .publishedOutcomeUnknown,
    none, none⟩

/-! ### The review and the coordinator -/

/-- The review of a state file, against the request and the policy of the plan. -/
def review (rules : ServingRules Payload) (expected : Option PolicyAck) (request : AgentRequest Payload)
    (record : RequestRecord) : RequestRecord :=
  if record.state = .terminalFailureReceived ∧ (record.failureReceipt.any fun receipt =>
        validateGenerationFailure receipt (rules.evidenceDigest request.payload) record.id expected &&
        record.requestPayloadSha256 = some receipt.requestPayloadSha256 &&
        failureIsTerminal receipt) = false then
    { record with state := .terminalFailureClosureUnknown }
  else record

/-- `request_uncertain`, of one state file. -/
def requestUncertain (record : RequestRecord) : Bool :=
  (record.state = .terminalFailureReceived &&
    !record.failureReceipt.any fun receipt => receipt.requestId = record.id.text &&
      record.requestPayloadSha256 = some receipt.requestPayloadSha256 && failureIsTerminal receipt) ||
  "unknown".toList <:+: record.state.text.toList || "uncertain".toList <:+: record.state.text.toList

/-! ### The way of a receipt -/

/-- The shim, the receipts that the GPU relay has passed on, the requests of the agents, and the claims
and results of the CPU relay. -/
structure Route (Payload : Type) where
  loopback : Loopback Payload
  relayed : List FailureReceipt
  requests : List (AgentRequest Payload)
  inflight : AList fun _ : Id => Payload
  outbox : AList fun _ : Id => RelayResult

def Route.fresh (Payload : Type) : Route Payload := ⟨Loopback.fresh Payload, [], [], ∅, ∅⟩

/-- A step of the shim, of a relay or of an agent. -/
inductive RouteAction (Payload : Type)
  | loopback (action : LoopbackAction Payload)
  /-- `execute_generation` has a receipt in the answer of the shim. -/
  | relay (id : Id) (payload : Payload) (receipt : FailureReceipt)
  | write (id : Id) (payload : Payload) (expected : Option PolicyAck)
  | publish (index : ℕ)
  | claim (index : ℕ)
  | commit (id : Id) (result : RelayResult)
  | read (index : ℕ)
  | abandon (index : ℕ) (cancelled expired : Bool)

namespace Route

variable (rules : ServingRules Payload) (route : Route Payload)

/-- `result` of the CPU relay: a receipt is checked against the claimed job. -/
def admits (id : Id) : RelayResult → Bool
  | .response | .error none => (route.inflight.lookup id).isSome
  | .error (some receipt) => receipt ∈ route.relayed && (route.inflight.lookup id).any fun payload =>
    validateGenerationFailure receipt (rules.evidenceDigest payload) id none

def place (index : ℕ) (request : AgentRequest Payload) (place : RequestPlace) : Route Payload :=
  { route with requests := route.requests.set index { request with place := place } }

def step (action : RouteAction Payload) : Option (Route Payload) :=
  match action with
  | .loopback action =>
    (route.loopback.step rules action).map fun loopback => { route with loopback := loopback }
  | .relay id payload receipt =>
    if receipt ∈ route.loopback.made.map Prod.fst ∧
        validateGenerationFailure receipt (rules.evidenceDigest payload) id none = true then
      some { route with relayed := route.relayed ++ [receipt] }
    else none
  | .write id payload expected =>
    some { route with requests := route.requests ++ [⟨id, payload, expected, .written⟩] }
  | .publish index =>
    (route.requests[index]?).bind fun request =>
      match request.place with
      | .written => some (route.place index request .published)
      | _ => none
  | .claim index =>
    (route.requests[index]?).bind fun request =>
      match request.place, route.inflight.lookup request.id with
      | .written, _ => none
      | _, none => some { route with inflight := route.inflight.insert request.id request.payload }
      | _, some _ => none
  | .commit id result =>
    if (route.outbox.lookup id).isNone = true ∧ route.admits rules id result = true then
      some { route with outbox := route.outbox.insert id result }
    else none
  | .read index =>
    (route.requests[index]?).bind fun request =>
      match request.place with
      | .published => (route.outbox.lookup request.id).map fun result =>
        route.place index request (.recorded (readResult rules request result))
      | _ => none
  | .abandon index cancelled expired =>
    (route.requests[index]?).bind fun request =>
      match request.place with
      | .written => some (route.place index request (.recorded (giveUp request false cancelled expired)))
      | .published => some (route.place index request (.recorded (giveUp request true cancelled expired)))
      | .recorded _ => none

end Route

def routeSystem (rules : ServingRules Payload) : System (Route Payload) (RouteAction Payload) where
  initial route := route = Route.fresh Payload
  step route action := route.step rules action

/-! ### What a state file says -/

/-- A receipt in a state file was passed on, and has its request; a closed request has a receipt of its
end. -/
structure Recorded (relayed : List FailureReceipt) (id : Id) (record : RequestRecord) : Prop where
  passed : ∀ receipt, record.failureReceipt = some receipt →
    receipt ∈ relayed ∧ receipt.requestId = id.text
  closed : record.state = .terminalFailureReceived →
    ∃ receipt, record.failureReceipt = some receipt ∧ failureIsTerminal receipt = true

/-- The receipts of the route come from the shim. -/
structure Traced (rules : ServingRules Payload) (route : Route Payload) : Prop where
  accountable : Accountable rules route.loopback
  relayed : ∀ receipt ∈ route.relayed, receipt ∈ route.loopback.made.map Prod.fst
  committed : ∀ id receipt, route.outbox.lookup id = some (.error (some receipt)) →
    receipt ∈ route.relayed
  recorded : ∀ request ∈ route.requests, ∀ record, request.place = .recorded record →
    Recorded route.relayed request.id record

section Traced

variable {rules : ServingRules Payload} {route next : Route Payload} {request : AgentRequest Payload}
  {record : RequestRecord} {relayed relayed' : List FailureReceipt} {id : Id}

theorem Recorded.mono (recorded : Recorded relayed id record)
    (grows : ∀ receipt ∈ relayed, receipt ∈ relayed') : Recorded relayed' id record where
  passed := fun receipt found => (recorded.passed receipt found).imp (grows receipt) fun own => own
  closed := recorded.closed

variable {expected : Option PolicyAck}

theorem validate_request {receipt : FailureReceipt} {digest : String}
    (valid : validateGenerationFailure receipt digest id expected = true) :
    receipt.requestId = id.text := by
  simp only [validateGenerationFailure, and_eq_true, decide_eq_true_eq] at valid
  exact valid.1.1.1.1.1.1.1.1.2

theorem recorded_read {result : RelayResult}
    (committed : ∀ receipt, result = .error (some receipt) → receipt ∈ relayed) :
    Recorded relayed request.id (readResult rules request result) := by
  unfold readResult
  split
  · exact ⟨nofun, fun wrong => by cases wrong⟩
  · exact ⟨fun _ wrong => (by cases wrong), fun wrong => by cases wrong⟩
  · rename_i receipt
    split_ifs with valid terminal
    · refine ⟨?_, fun _ => ⟨receipt, rfl, terminal⟩⟩
      rintro found ⟨⟩
      exact ⟨committed receipt rfl, validate_request valid⟩
    · refine ⟨?_, fun wrong => by cases wrong⟩
      rintro found ⟨⟩
      exact ⟨committed receipt rfl, validate_request valid⟩
    · exact ⟨fun _ wrong => (by cases wrong), fun wrong => by cases wrong⟩

theorem recorded_giveUp {published cancelled expired : Bool} :
    Recorded relayed request.id (giveUp request published cancelled expired) := by
  refine ⟨fun _ wrong => (by cases wrong), fun wrong => ?_⟩
  unfold giveUp at wrong
  split at wrong <;> cases wrong

theorem made_grows {loopback next : Loopback Payload} {action : LoopbackAction Payload}
    (counted : Counted Handler.weight loopback.handlers loopback.active)
    (stepped : loopback.step rules action = some next) : ∀ entry ∈ loopback.made, entry ∈ next.made := by
  intro entry mem
  cases loopback_step_cases counted stepped with
  | answer index handler stage thread _ _ => exact mem_append_left _ mem
  | _ => exact mem

theorem Traced.fresh : Traced rules (Route.fresh Payload) where
  accountable := Accountable.fresh
  relayed := fun _ mem => by cases mem
  committed := fun _ _ impossible => by cases impossible
  recorded := fun _ mem => by cases mem

theorem Traced.place (traced : Traced rules route) {index : ℕ} {place : RequestPlace}
    (recorded : ∀ record, place = .recorded record → Recorded route.relayed request.id record) :
    Traced rules (route.place index request place) := by
  refine ⟨traced.accountable, traced.relayed, traced.committed, fun found mem record here => ?_⟩
  rcases Cells.mem_set mem with rfl | before
  · exact recorded record here
  · exact traced.recorded found before record here

theorem Traced.step (traced : Traced rules route) {action : RouteAction Payload}
    (stepped : route.step rules action = some next) : Traced rules next := by
  cases action with
  | loopback action =>
    obtain ⟨loopback, moved, rfl⟩ := map_eq_some_iff.mp stepped
    refine ⟨traced.accountable.step moved, fun receipt mem => ?_, traced.committed, traced.recorded⟩
    obtain ⟨entry, made, same⟩ := mem_map.mp (traced.relayed receipt mem)
    exact mem_map.mpr ⟨entry, made_grows traced.accountable.wired.counts moved entry made, same⟩
  | relay id payload receipt =>
    simp only [Route.step] at stepped
    split_ifs at stepped with passes
    cases stepped
    have grows : ∀ found ∈ route.relayed, found ∈ route.relayed ++ [receipt] :=
      fun _ => mem_append_left _
    refine ⟨traced.accountable, fun found mem => ?_,
      fun id found known => grows found (traced.committed id found known),
      fun request mem record here => (traced.recorded request mem record here).mono grows⟩
    rcases mem_append.mp mem with before | new
    · exact traced.relayed found before
    · exact mem_singleton.mp new ▸ passes.1
  | write id payload expected =>
    cases stepped
    refine ⟨traced.accountable, traced.relayed, traced.committed, fun request mem record here => ?_⟩
    rcases mem_append.mp mem with before | new
    · exact traced.recorded request before record here
    · rw [mem_singleton.mp new] at here
      cases here
  | publish index =>
    obtain ⟨request, -, moved⟩ := bind_eq_some_iff.mp stepped
    split at moved
    · cases moved
      exact traced.place fun _ wrong => by cases wrong
    · cases moved
  | claim index =>
    obtain ⟨request, -, moved⟩ := bind_eq_some_iff.mp stepped
    split at moved
    · cases moved
    · cases moved
      exact ⟨traced.accountable, traced.relayed, traced.committed, traced.recorded⟩
    · cases moved
  | commit id result =>
    simp only [Route.step] at stepped
    split_ifs at stepped with free
    cases stepped
    refine ⟨traced.accountable, traced.relayed, fun other receipt known => ?_, traced.recorded⟩
    rcases Cells.lookup_insert_cases known with ⟨rfl, rfl⟩ | ⟨-, before⟩
    · have admitted := free.2
      simp only [Route.admits, and_eq_true, decide_eq_true_eq] at admitted
      exact admitted.1
    · exact traced.committed other receipt before
  | read index =>
    obtain ⟨request, -, moved⟩ := bind_eq_some_iff.mp stepped
    split at moved
    · obtain ⟨result, known, rfl⟩ := map_eq_some_iff.mp moved
      refine traced.place fun record same => ?_
      cases same
      refine recorded_read fun receipt same => traced.committed request.id receipt ?_
      rw [known, same]
    · cases moved
  | abandon index cancelled expired =>
    obtain ⟨request, -, moved⟩ := bind_eq_some_iff.mp stepped
    split at moved
    · cases moved
      refine traced.place fun record same => ?_
      cases same
      exact recorded_giveUp
    · cases moved
      refine traced.place fun record same => ?_
      cases same
      exact recorded_giveUp
    · cases moved

theorem terminal_outcome {receipt : FailureReceipt} (terminal : failureIsTerminal receipt = true) :
    receipt.samplerOutcome = .notAdmitted ∨ receipt.samplerOutcome = .completed := by
  simp only [failureIsTerminal, and_eq_true, or_eq_true, decide_eq_true_eq] at terminal
  exact terminal.2.imp (fun first => first.1) fun second => second.1

theorem review_closes (closed : record.state = .terminalFailureReceived)
    (certain : requestUncertain (review rules expected request record) = false) :
    (review rules expected request record).state = .terminalFailureReceived := by
  unfold review at certain ⊢
  split_ifs at certain ⊢ with rejected
  · have unclear : requestUncertain { record with state := .terminalFailureClosureUnknown } = true := by
      unfold requestUncertain
      simp only [or_eq_true, decide_eq_true_eq]
      exact Or.inl (Or.inr (by decide +kernel))
    rw [unclear] at certain
    cases certain
  · exact closed

end Traced

/-- In every run, a request that is recorded as closed and that the coordinator finds certain has a
receipt that the shim has made; and either no call of `generate` for it has issued it to the model, up to
now, or the model had returned its output when the receipt was made, and it is not issued behind it. -/
theorem receipts_attest (rules : ServingRules Payload) (expected : Option PolicyAck)
    (route : Route Payload) (reached : (routeSystem rules).Reachable always route)
    (request : AgentRequest Payload) (member : request ∈ route.requests) (record : RequestRecord)
    (recorded : request.place = .recorded record) (closed : record.state = .terminalFailureReceived)
    (certain : requestUncertain (review rules expected request record) = false) :
    (review rules expected request record).state = .terminalFailureReceived ∧
    ∃ receipt length, record.failureReceipt = some receipt ∧
      (receipt, length) ∈ route.loopback.made ∧ length ≤ route.loopback.server.log.length ∧
      ((∀ (thread : ℕ) (call : Call Payload), route.loopback.server.calls[thread]? = some call →
          call.generates = true → call.requestId = request.id →
          ¬ IssuedBy thread route.loopback.server.log) ∨
        ∀ (thread : ℕ) (call : Call Payload), route.loopback.server.calls[thread]? = some call →
          call.generates = true → call.requestId = request.id →
          ReturnedTo thread (route.loopback.server.log.take length) ∧
            ¬ IssuedBy thread (route.loopback.server.log.drop length)) := by
  refine ⟨review_closes closed certain, ?_⟩
  have traced : Traced rules route := by
    refine reached.invariant (Traced rules) ?_ fun _ _ _ _ stepped traced => traced.step stepped
    rintro _ rfl
    exact Traced.fresh
  obtain ⟨passed, closes⟩ := traced.recorded request member record recorded
  obtain ⟨receipt, found, terminal⟩ := closes closed
  obtain ⟨relayed, own⟩ := passed receipt found
  obtain ⟨⟨given, length⟩, made, same⟩ := mem_map.mp (traced.relayed receipt relayed)
  subst same
  obtain ⟨wired, -, attested⟩ := traced.accountable
  obtain ⟨bounded, index, handler, there, -, same, vouches⟩ := attested given length made
  have requested : handler.requestId = request.id := Id.text_injective (same.symm.trans own)
  -- A call for the request is that of the handler.
  have vouched : ∀ (thread : ℕ) (call : Call Payload),
      route.loopback.server.calls[thread]? = some call → call.generates = true →
      call.requestId = request.id →
      Vouched given.samplerOutcome thread route.loopback.server.log length := by
    intro thread call at_ generates asked
    obtain ⟨other, found', at', own', here⟩ := wired.owned thread call at_ generates
    have equal := wired.same at' there (own'.trans (asked.trans requested.symm))
    subst equal
    rw [there] at at'
    cases at'
    exact vouches thread here
  refine ⟨given, length, found, made, bounded, ?_⟩
  rcases terminal_outcome terminal with unsampled | completed
  · exact Or.inl fun thread call at_ generates asked =>
      (vouched thread call at_ generates asked).unsampled unsampled
  · exact Or.inr fun thread call at_ generates asked =>
      (vouched thread call at_ generates asked).returned completed

/-! ### A completion that is not delivered -/

/-- The receipt of a request whose completion was sampled and not delivered. -/
def oneReceipt : FailureReceipt :=
  ⟨1, sampleId.text, "payload", firstArtifact.ack, "http_delivery", .completed, true, true, "request",
    "owned_vllm_final_request_output", false⟩

/-- The controller samples a request, and its handler cannot send the answer. -/
def undelivered : List (LoopbackAction Unit) :=
  serves.map .server ++ [.start, .reserve sampleId (), .generate 0] ++
    (samples.drop 1 ++ answers).map .server ++
    [.collect 0 false, .deliver 0 false, .fail 0 "http_delivery", .release 0]

def attests : List (RouteAction Unit) :=
  [.write sampleId () (some firstArtifact.ack), .publish 0, .claim 0] ++ undelivered.map .loopback ++
    [.relay sampleId () oneReceipt, .commit sampleId (.error (some oneReceipt)), .read 0]

/-- A request that the agent has recorded as closed and the coordinator finds certain. -/
def AgentRequest.certain (rules : ServingRules Payload) (expected : Option PolicyAck)
    (request : AgentRequest Payload) : Bool :=
  match request.place with
  | .recorded record => record.state = .terminalFailureReceived &&
      !requestUncertain (review rules expected request record)
  | _ => false

theorem receipts_attest_run : ((routeSystem (oneServer .vllm)).run always (Route.fresh Unit)
    attests).map (fun route => (route.loopback.server.issued,
      route.requests.map (AgentRequest.certain (oneServer .vllm) (some firstArtifact.ack))))
    = some ([sampleId], [true]) := by
  decide +kernel

theorem receipts_attest_undelivered : ∃ (route : Route Unit) (receipt : FailureReceipt) (length : ℕ),
    (routeSystem (oneServer .vllm)).Reachable always route ∧
    route.loopback.server.issued = [sampleId] ∧ (receipt, length) ∈ route.loopback.made := by
  obtain ⟨route, finish, same⟩ := map_eq_some_iff.mp receipts_attest_run
  have reached := reachable_of_run rfl finish
  simp only [Prod.mk.injEq] at same
  obtain ⟨request, rest, all, certain, -⟩ := map_eq_cons_iff.mp same.2
  have member : request ∈ route.requests := by
    rw [all]
    exact mem_cons_self
  unfold AgentRequest.certain at certain
  split at certain
  · rename_i record recorded
    simp only [and_eq_true, decide_eq_true_eq, not_eq_true'] at certain
    obtain ⟨-, receipt, length, -, made, -⟩ := receipts_attest (oneServer .vllm)
      (some firstArtifact.ack) route reached request member record recorded certain.1 certain.2
    exact ⟨route, receipt, length, reached, same.1, made⟩
  · cases certain

end TinyDSV41.Serving
