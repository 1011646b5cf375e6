/-
**The contracts of rollout coordination.**

Resources, identities, plans and results as `contracts.py` declares them, and the test whether a
request-state record leaves a request unresolved (`requestUncertain`). Records are JSON-like values;
their mappings are association lists read from the front.

* `ResourceRequirements.demand` — the amount a requirement asks for under each executor and quantity;
  work whose backend accounts for its own stages asks for nothing here.
* `requestUncertain` — flags of the record itself, a claimed terminal failure without proof, a state
  text that names an unknown or uncertain outcome, or any of these in a nested mapping.
-/

import Mathlib.Algebra.Order.Ring.Rat
import Mathlib.Data.List.Infix

namespace TinyDSV41.Coordinator

/-! ### Resources -/

/-- The quantities of `_QUANTITIES`. -/
inductive Quantity
  | cpu
  | memoryBytes
  | storageBytes
  | gpuCount
deriving DecidableEq

def Quantity.all : List Quantity := [.cpu, .memoryBytes, .storageBytes, .gpuCount]

theorem Quantity.mem_all (quantity : Quantity) : quantity ∈ Quantity.all := by
  cases quantity <;> decide

/-- Who accounts for the resources of an episode. -/
inductive Accounting
  | episode
  | backendStage
deriving DecidableEq

/-- The resources of a task; quantities are exact. -/
structure ResourceRequirements where
  executor : String
  cpu : ℚ
  memoryBytes : ℚ
  storageBytes : ℚ
  gpuCount : ℚ
  accounting : Accounting
  executor_ne : executor ≠ ""
  nonneg : 0 ≤ cpu ∧ 0 ≤ memoryBytes ∧ 0 ≤ storageBytes ∧ 0 ≤ gpuCount
deriving DecidableEq

/-- An account of the coordinator: one quantity of one executor. -/
abbrev Account := String × Quantity

namespace ResourceRequirements

variable (requirement : ResourceRequirements)

/-- `getattr` of a quantity. -/
def amount (requirement : ResourceRequirements) : Quantity → ℚ
  | .cpu => requirement.cpu
  | .memoryBytes => requirement.memoryBytes
  | .storageBytes => requirement.storageBytes
  | .gpuCount => requirement.gpuCount

theorem amount_nonneg (quantity : Quantity) :
    0 ≤ requirement.amount quantity := by
  obtain ⟨cpu, memory, storage, gpu⟩ := requirement.nonneg
  cases quantity <;> assumption

/-- What the requirement asks for on each account. -/
def demand (requirement : ResourceRequirements) (account : Account) : ℚ :=
  if requirement.accounting = .episode ∧ requirement.executor = account.1 then
    requirement.amount account.2
  else 0

theorem demand_nonneg (account : Account) :
    0 ≤ requirement.demand account := by
  unfold demand
  split_ifs
  · exact requirement.amount_nonneg account.2
  · exact le_rfl

end ResourceRequirements

/-! ### Episodes -/

/-- The members of `BENCHMARKS`. -/
inductive Benchmark
  | kernelbench
  | cudaAgent
  | terminalBench
  | promptResponse
deriving DecidableEq

def Benchmark.name : Benchmark → String
  | .kernelbench => "kernelbench"
  | .cudaAgent => "cuda-agent"
  | .terminalBench => "terminal-bench"
  | .promptResponse => "prompt-response"

structure EpisodeIdentity where
  runId : String
  benchmark : Benchmark
  taskId : String
  groupId : String
  sampleIndex : ℕ
  passIndex : ℕ
  trialId : Option String
  samplingSeed : Option ℤ
deriving DecidableEq

/-- The part of a `TaskSpec` the coordinator reads. -/
structure TaskSpec where
  benchmark : Benchmark
  taskId : String
  sourceSha256 : String
  resources : ResourceRequirements
deriving DecidableEq

/-- A plan names one episode of its task. -/
structure EpisodePlan where
  identity : EpisodeIdentity
  task : TaskSpec
  agrees : identity.benchmark = task.benchmark ∧ identity.taskId = task.taskId
deriving DecidableEq

/-! ### Records -/

inductive Value
  | null
  | bool (value : Bool)
  | number (value : ℚ)
  | text (value : String)
  | list (items : List Value)
  | mapping (entries : List (String × Value))

abbrev Mapping := List (String × Value)

/-- `dict.get`. -/
def Mapping.get (entries : Mapping) (key : String) : Option Value :=
  (entries.find? fun entry => entry.1 = key).map Prod.snd

namespace Value

mutual
/-- Python's `==`: a Boolean equals the number it stands for, mappings are compared by key. -/
def pyEq : Value → Value → Bool
  | .null, .null => true
  | .bool first, .bool second => first == second
  | .bool first, .number second => second == if first then 1 else 0
  | .number first, .bool second => first == if second then 1 else 0
  | .number first, .number second => first == second
  | .text first, .text second => first == second
  | .list first, .list second => pyEqItems first second
  | .mapping first, .mapping second => first.length == second.length && pyEqEntries first second
  | _, _ => false
def pyEqItems : List Value → List Value → Bool
  | [], [] => true
  | item :: items, other :: others => item.pyEq other && pyEqItems items others
  | _, _ => false
def pyEqEntries : List (String × Value) → Mapping → Bool
  | [], _ => true
  | (key, value) :: rest, others =>
    (match others.get key with
      | some other => value.pyEq other
      | none => false) && pyEqEntries rest others
end

mutual
/-- Python's `repr`, without the escapes of a text: an escape starts with a backslash and so neither
completes nor breaks a word. -/
def repr : Value → String
  | .null => "None"
  | .bool true => "True"
  | .bool false => "False"
  | .number value => toString value
  | .text value => "'" ++ value ++ "'"
  | .list items => "[" ++ reprItems items ++ "]"
  | .mapping entries => "\x7b" ++ reprEntries entries ++ "\x7d"
def reprItems : List Value → String
  | [] => ""
  | item :: rest => item.repr ++ ", " ++ reprItems rest
def reprEntries : List (String × Value) → String
  | [] => ""
  | (key, value) :: rest => "'" ++ key ++ "': " ++ value.repr ++ ", " ++ reprEntries rest
end

/-- Python's `str`. -/
def str : Value → String
  | .text value => value
  | value => value.repr

end Value

/-- The letters that `str.lower` maps to an ASCII letter. -/
def lowerChar (letter : Char) : Char :=
  -- The Kelvin sign is the one letter outside ASCII with an ASCII lower case of its own.
  if letter = Char.ofNat 0x212a then 'k' else letter.toLower

def mentions (text word : String) : Bool :=
  decide (word.toList <:+: text.toList.map lowerChar)

/-- `failure_is_terminal`; `none` is the `KeyError` of a missing field. -/
def failureIsTerminal (receipt : Mapping) : Option Bool := do
  let drained ← receipt.get "sampler_drained"
  unless isTrue drained do return false
  let proven ← receipt.get "actual_actor_drain_proven"
  unless isTrue proven do return false
  let outcome ← receipt.get "sampler_outcome"
  if outcome.pyEq (.text "not_admitted") then
    let proof ← receipt.get "proof_kind"
    return proof.pyEq (.text "controller_rejected_before_sampler_dispatch")
  if outcome.pyEq (.text "completed") then
    let proof ← receipt.get "proof_kind"
    return proof.pyEq (.text "owned_vllm_final_request_output")
  return false
where
  /-- `value is True`. -/
  isTrue : Value → Bool
    | .bool true => true
    | _ => false

/-- A terminal failure is claimed without a validated receipt bound to the record. -/
def failureUnproven (state : Mapping) : Bool :=
  if ((state.get "generation_failure").getD .null).pyEq (.text "validated") then
    match state.get "failure_receipt" with
    | some (.mapping receipt) =>
      match Mapping.get receipt "request_id", Mapping.get receipt "request_payload_sha256" with
      | some requestId, some payload =>
        !requestId.pyEq ((state.get "id").getD .null) ||
          !payload.pyEq ((state.get "request_payload_sha256").getD .null) ||
          !((failureIsTerminal receipt).getD false)
      | _, _ => true
    | _ => true
  else true

/-- What one mapping says about itself. -/
def unresolvedHere (state : Mapping) : Bool :=
  flagged (state.get "uncertain") true || flagged (state.get "spool_terminal") false ||
    (((state.get "state").getD .null).pyEq (.text "terminal_failure_received") &&
      failureUnproven state) ||
    ["state", "delivery_state"].any fun key =>
      let value := ((state.get key).getD (.text "")).str
      mentions value "unknown" || mentions value "uncertain"
where
  /-- `value is flag`. -/
  flagged : Option Value → Bool → Bool
    | some (.bool value), flag => value == flag
    | _, _ => false

mutual
/-- A mapping is unresolved itself or in one of its mappings. -/
def Value.unresolved : Value → Bool
  | .mapping entries => unresolvedHere entries || anyUnresolved entries
  | _ => false
def anyUnresolved : List (String × Value) → Bool
  | [] => false
  | (_, value) :: rest => value.unresolved || anyUnresolved rest
end

/-- `request_uncertain`; an absent or empty record is certain. -/
def requestUncertain : Option Mapping → Bool
  | none => false
  | some [] => false
  | some state => (Value.mapping state).unresolved

/-! ### Results -/

/-- The fields of an `EpisodeResult` the coordinator reads or writes. -/
structure EpisodeResult where
  identity : EpisodeIdentity
  executionState : String
  verificationState : String
  scoreEligible : Bool
  cleanupState : String
  nativeOutcome : Mapping
  failureCategory : Option String
  requestState : Option Mapping
  sourceSha256 : Option String

/-- `CancellationToken`: the event and the first reason given. -/
structure CancellationToken where
  cancelled : Bool
  reason : Option String
deriving DecidableEq

def CancellationToken.fresh : CancellationToken := ⟨false, none⟩

/-- `cancel`: the event is set and the first reason is kept. -/
def CancellationToken.cancel (token : CancellationToken) (reason : String) : CancellationToken :=
  ⟨true, some (token.reason.getD reason)⟩

@[simp] theorem CancellationToken.cancelled_cancel (token : CancellationToken) (reason : String) :
    (token.cancel reason).cancelled = true := rfl

end TinyDSV41.Coordinator
