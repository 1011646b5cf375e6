/-
**Episodes to training groups.**

The assembler keeps the registered groups that are open, with the results that have come in, and the group of each
episode. The result that completes a group is answered with its receipt: a training group, or an exclusion with
all results.

* `RewardPolicy.reward` — the reward of an episode, if it is eligible.
* `sampleOf`, `receiptOf` — the sample of an episode, and the receipt of a group.
* `GroupAssembler.register`, `GroupAssembler.complete` — the calls, each with the state behind it, also where it
  raises.
-/

import TinyDSV41.Records.Basic
import TinyDSV41.Coordinator.Contracts
import TinyDSV41.Lib.OrderedTable

namespace TinyDSV41.Records

open Lib List
open Coordinator (Benchmark EpisodeIdentity EpisodePlan)

/-! ### Results of episodes -/

/-- An `EpisodeResult` with the fields that are read; evidence is data of JSON. -/
structure EpisodeResult where
  identity : EpisodeIdentity
  executionState : String
  verificationState : String
  scoreEligible : Bool
  cleanupState : String
  nativeOutcome : List (Text × Json)
  nativeArtifacts : Json
  failureCategory : Option String
  requestState : Option (List (Text × Json))
  sourceSha256 : Option String

def EpisodeResult.outcome (result : EpisodeResult) : Json := .object result.nativeOutcome

def stringOf (value : Text) : String := String.ofList (value.map Char.ofNat)

mutual
/-- A value as `request_uncertain` reads it. -/
def valueOf : Json → Coordinator.Value
  | .null => .null
  | .bool value => .bool value
  | .int value => .number value
  | .float value _ => .number value
  | .nonFinite constant => .text constant.name
  | .str value => .text (stringOf value)
  | .list items => .list (valuesOf items)
  | .object entries => .mapping (mappingOf entries)
def valuesOf : List Json → List Coordinator.Value
  | [] => []
  | item :: rest => valueOf item :: valuesOf rest
def mappingOf : List (Text × Json) → List (String × Coordinator.Value)
  | [] => []
  | (key, value) :: rest => (stringOf key, valueOf value) :: mappingOf rest
end

/-- `request_uncertain` -/
def uncertain (state : Option (List (Text × Json))) : Bool := Coordinator.requestUncertain (state.map mappingOf)

/-- `bool(value)` -/
def truthy : Json → Bool
  | .null => false
  | .bool value => value
  | .int value => value != 0
  | .float value _ => value != 0
  | .nonFinite _ => true
  | .str value => !value.isEmpty
  | .list items => !items.isEmpty
  | .object entries => !entries.isEmpty

/-! ### Rewards -/

inductive RewardMapping
  | nativeFinalCorrectness
  | terminalValidatedVerifier
deriving DecidableEq

def RewardMapping.name : RewardMapping → String
  | .nativeFinalCorrectness => "native-final-correctness-v1"
  | .terminalValidatedVerifier => "terminal-validated-verifier-v1"

def supported : Benchmark → Option RewardMapping
  | .kernelbench => some .nativeFinalCorrectness
  | .cudaAgent => some .nativeFinalCorrectness
  | .terminalBench => some .terminalValidatedVerifier
  | .promptResponse => none

/-- A supported mapping of a benchmark; `__post_init__` refuses any other. -/
structure RewardPolicy where
  benchmark : Benchmark
  mapping : RewardMapping
  agrees : supported benchmark = some mapping

def Finite.ofBool (value : Bool) : Finite := if value then ⟨1, "1.0".toList⟩ else ⟨0, "0.0".toList⟩

def hasRequests : Option (List (Text × Json)) → Bool
  | some (_ :: _) => true
  | _ => false

section Receipts

variable (runtime : Runtime)

/-- `RewardPolicy.reward` -/
def RewardPolicy.reward (policy : RewardPolicy) (result : EpisodeResult) : Checked Finite := do
  let _ ← require (result.identity.benchmark = policy.benchmark ∧ result.executionState = "completed" ∧
      result.scoreEligible = true ∧ result.failureCategory = none)
    (.value "episode execution or scoring is ineligible")
  let _ ← require ((result.cleanupState = "verified" ∨ result.cleanupState = "not_required") ∧
      uncertain result.requestState = false)
    (.value "episode cleanup or request delivery is unproven")
  let _ ← require (hasRequests result.requestState = true)
    (.value "episode lacks durable request completion evidence")
  let _ ← require (truthy (field result.outcome "training_evidence_error") = false)
    (.value "backend rejected training evidence")
  match policy.mapping with
  | .nativeFinalCorrectness =>
    match field result.outcome "final_correct" with
    | .bool value => do
        let _ ← require (result.verificationState = if value then "passed" else "failed")
          (.value "native final verification is missing or inconsistent")
        return .ofBool value
    | _ => .error (.value "native final verification is missing or inconsistent")
  | .terminalValidatedVerifier => do
      let _ ← require (result.verificationState = "evaluated" ∧
          isText (field result.outcome "review_classification") (text "evaluated") = true)
        (.value "Terminal verifier requires an authoritative evaluated result")
      finite runtime (field result.outcome "validated_reported_reward") "Terminal verifier reward is missing or nonfinite"

/-! ### Registrations -/

def waveOf (plan : EpisodePlan) : String × Benchmark × ℕ × String × String :=
  (plan.identity.runId, plan.identity.benchmark, plan.identity.passIndex, plan.task.taskId, plan.task.sourceSha256)

/-- A registered group; its plans stand in the order of their indices. `__post_init__` refuses any other. -/
structure GroupRegistration where
  groupId : ℕ
  plans : List EpisodePlan
  policy : PolicyRef
  initialContext : Text
  reset : Text
  rewardPolicy : RewardPolicy
  least : 2 ≤ plans.length
  distinct : (plans.map EpisodePlan.identity).Nodup
  indices : plans.map (fun plan => plan.identity.sampleIndex) = range plans.length
  wave : ∀ plan ∈ plans, ∀ other ∈ plans, waveOf plan = waveOf other
  benchmark : ∀ plan ∈ plans, plan.identity.benchmark = rewardPolicy.benchmark
  digests : isDigest initialContext = true ∧ isDigest reset = true

def GroupRegistration.identities (registration : GroupRegistration) : List EpisodeIdentity :=
  registration.plans.map EpisodePlan.identity

/-! ### Samples -/

/-- `asdict(identity)` -/
def identityJson (identity : EpisodeIdentity) : Json :=
  object [("run_id", literal identity.runId), ("benchmark", literal identity.benchmark.name),
    ("task_id", literal identity.taskId), ("group_id", literal identity.groupId),
    ("sample_index", .int identity.sampleIndex), ("pass_index", .int identity.passIndex),
    ("trial_id", optionJson literal identity.trialId), ("sampling_seed", optionJson Json.int identity.samplingSeed)]

def entryOf (entries : List (Text × Json)) (key : Text) : Option Json :=
  (entries.find? fun entry => entry.1 = key).map Prod.snd

def requestsOf (episode : EpisodeResult) : Option (List (Text × Json)) :=
  match field (.object (episode.requestState.getD [])) "requests" with
  | .object states => some states
  | _ => none

def recorded (episode : EpisodeResult) (turns : List TurnTrace) : Bool :=
  (requestsOf episode).any fun states => turns.all fun turn => (entryOf states turn.requestId).isSome

/-- The record of a request says that it was answered, and its evidence validated. -/
def answered (state : Json) : Bool :=
  state.isObject && isText (field state "state") (text "response_received") &&
    isText (field state "training_evidence") (text "validated")

/-- The request of each turn was answered, and its evidence validated. -/
def delivered (episode : EpisodeResult) (turns : List TurnTrace) : Bool :=
  (requestsOf episode).any fun states => turns.all fun turn => (entryOf states turn.requestId).any answered

def turnItems : Json → Checked (List Json)
  | .list (item :: rest) => .ok (item :: rest)
  | _ => .error (.value "exact sampled training turns are missing")

def sampleIdOf (plan : EpisodePlan) (groupId : ℕ) : Checked Text :=
  let own := (plan.identity.trialId).getD ""
  if own ≠ "" then .ok (text own)
  else if runtime.numbers.Fits groupId ∧ runtime.numbers.Fits plan.identity.sampleIndex then
    .ok (text plan.identity.runId ++ 58 :: codes (Nat.toDigits 10 groupId) ++
      58 :: codes (Nat.toDigits 10 plan.identity.sampleIndex))
  else .error (.value "an integer has too many digits")

def evidenceOf (registration : GroupRegistration) (episode : EpisodeResult) : Json :=
  object [("episode_identity", identityJson episode.identity), ("native_artifacts", episode.nativeArtifacts),
    ("native_outcome", episode.outcome), ("reward_mapping", literal registration.rewardPolicy.mapping.name)]

def sampleOf (registration : GroupRegistration) (plan : EpisodePlan) (episode : EpisodeResult) :
    Checked TrainingTrajectory := do
  let _ ← require (episode.sourceSha256 = some plan.task.sourceSha256)
    (.value "completed source digest differs from registered task")
  let reward ← registration.rewardPolicy.reward runtime episode
  let items ← turnItems (field episode.outcome "training_turns")
  let turns ← items.mapM (TurnTrace.fromDict runtime)
  let _ ← require (∀ turn ∈ turns, turn.policy.same registration.policy = true)
    (.value "sample policy receipt differs from registered group lease")
  let _ ← require (recorded episode turns = true) (.value "sampled requests lack durable delivery records")
  let _ ← require (delivered episode turns = true)
    (.value "sampled requests lack durable completion and validated training evidence")
  let sampleId ← sampleIdOf runtime plan registration.groupId
  TrainingTrajectory.construct runtime (.int registration.groupId) (literal plan.task.taskId)
    (.str registration.initialContext) (.str registration.reset) (.int plan.identity.sampleIndex) turns reward.json
    (.bool true) .null (evidenceOf registration episode) (.str sampleId) reward.json
    (optionJson Json.int plan.identity.samplingSeed)

/-! ### Receipts -/

/-- Why a group is excluded: a sample, by its index, or the group as a whole. -/
inductive Reason
  | sample (index : ℕ) (failure : Failure)
  | group (failure : Failure)
deriving DecidableEq

structure GroupExclusion where
  groupId : ℕ
  expectedSize : ℕ
  reasons : List Reason
  episodes : List EpisodeResult

inductive Receipt
  | group (group : TrainingGroup)
  | exclusion (exclusion : GroupExclusion)

def Receipt.groupId : Receipt → ℕ
  | .group complete => complete.groupId
  | .exclusion refused => refused.groupId

/-- The samples of the episodes, and why there are no others; an `OverflowError` is not caught. -/
def judge (registration : GroupRegistration) :
    List (EpisodePlan × EpisodeResult) → Checked (List TrainingTrajectory × List Reason)
  | [] => .ok ([], [])
  | (plan, episode) :: rest =>
    match sampleOf runtime registration plan episode with
    | .ok sample => (judge registration rest).map fun judged => (sample :: judged.1, judged.2)
    | .error .overflow => .error .overflow
    | .error failure => (judge registration rest).map fun judged =>
      (judged.1, .sample plan.identity.sampleIndex failure :: judged.2)

def receiptOf (registration : GroupRegistration) (episodes : List EpisodeResult) : Checked Receipt := do
  let (samples, reasons) ← judge runtime registration (registration.plans.zip episodes)
  let excluded (reasons : List Reason) : Receipt :=
    .exclusion ⟨registration.groupId, registration.plans.length, reasons, episodes⟩
  if reasons = [] then
    let task := (registration.plans.head?.map fun plan => plan.task.taskId).getD ""
    match TrainingGroup.construct (.int registration.groupId) (literal task) (.str registration.initialContext)
      (.str registration.reset) registration.policy (.int registration.plans.length) samples with
    | .ok group => return .group group
    | .error (.value message) => return excluded [.group (.value message)]
    | .error failure => .error failure
  else return excluded reasons

end Receipts

/-! ### The assembler -/

/-- An open group and the results that have come in. -/
structure Row where
  registration : GroupRegistration
  results : OrderedTable EpisodeIdentity EpisodeResult

structure GroupAssembler where
  maxGroups : ℕ
  maxEpisodes : ℕ
  groups : OrderedTable ℕ Row
  episodes : OrderedTable EpisodeIdentity ℕ
  lastRegistered : ℤ

namespace GroupAssembler

/-- `GroupAssembler.__init__` -/
def start (maxGroups maxEpisodes : ℕ) : GroupAssembler := ⟨maxGroups, maxEpisodes, ∅, ∅, -1⟩

/-- `GroupAssembler.register` -/
def register (self : GroupAssembler) (registration : GroupRegistration) : GroupAssembler × Checked Unit :=
  if (registration.groupId : ℤ) ≤ self.lastRegistered then
    (self, .error (.value "register a new monotonic semantic group identity"))
  else if self.maxGroups ≤ self.groups.length ∨
      self.maxEpisodes < self.episodes.length + registration.plans.length then
    (self, .error (.value "bounded training group capacity exhausted"))
  else if registration.identities.any fun identity => (self.episodes.get? identity).isSome then
    (self, .error (.value "episode belongs to more than one semantic training group"))
  else
    let opened := { self with groups := self.groups.push registration.groupId ⟨registration, ∅⟩ }
    let joined := { opened with
      episodes := opened.episodes.pushEach registration.identities registration.groupId }
    ({ joined with lastRegistered := registration.groupId }, .ok ())

/-- `GroupAssembler.complete`: the result is kept before the group is judged. -/
def complete (runtime : Runtime) (self : GroupAssembler) (result : EpisodeResult) :
    GroupAssembler × Checked (Option Receipt) :=
  match self.episodes.get? result.identity with
  | none => (self, .error (.value "result was not registered or has already completed"))
  | some groupId =>
    match self.groups.get? groupId with
    | none => (self, .error .key)
    | some row =>
      if (row.results.get? result.identity).isSome then
        (self, .error (.value "duplicate benchmark episode completion"))
      else
        let row := { row with results := row.results.push result.identity result }
        let kept := { self with groups := self.groups.modify groupId fun _ => row }
        if row.results.length ≠ row.registration.plans.length then (kept, .ok none)
        else
          match row.registration.identities.mapM row.results.get? with
          | none => (kept, .error .key)
          | some episodes =>
            match receiptOf runtime row.registration episodes with
            | .error failure => (kept, .error failure)
            | .ok receipt =>
              ({ kept with
                episodes := kept.episodes.removeEach row.registration.identities
                groups := kept.groups.remove groupId }, .ok (some receipt))

/-! ### Runs -/

inductive Call
  | register (registration : GroupRegistration)
  | complete (result : EpisodeResult)

inductive Response
  | registered
  | waiting
  | produced (receipt : Receipt)
  | raised (failure : Failure)

def step (runtime : Runtime) (self : GroupAssembler) : Call → GroupAssembler × Response
  | .register registration =>
    match self.register registration with
    | (after, .ok ()) => (after, .registered)
    | (after, .error failure) => (after, .raised failure)
  | .complete result =>
    match self.complete runtime result with
    | (after, .ok none) => (after, .waiting)
    | (after, .ok (some receipt)) => (after, .produced receipt)
    | (after, .error failure) => (after, .raised failure)

def after (runtime : Runtime) (self : GroupAssembler) : List Call → GroupAssembler
  | [] => self
  | call :: rest => after runtime (self.step runtime call).1 rest

def log (runtime : Runtime) (self : GroupAssembler) : List Call → List (Call × Response)
  | [] => []
  | call :: rest => (call, (self.step runtime call).2) :: log runtime (self.step runtime call).1 rest

end GroupAssembler

end TinyDSV41.Records
