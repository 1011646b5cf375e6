/-
**Training records and their constructors.**

Policies, turns, trajectories and groups are checked and normalised when they are built: numbers become floats,
mappings and sequences are copied, evidence passes through JSON, and the samples of a group are sorted.

* `PolicyRef.construct`, `TurnTrace.construct`, `TrainingTrajectory.construct`, `TrainingGroup.construct` — what
  is built of values, or the exception.
* `toDict`, `fromDict` — the records as dictionaries.
* `dumps`, `loads` — the records as texts.

Values that are passed to a constructor are values of JSON; `float` of an integer and the digest are parameters.
-/

import TinyDSV41.Lib.Checks
import TinyDSV41.Lib.JsonEncoding

namespace TinyDSV41.Records

open Lib

/-- An exception: a `ValueError` with its message, a `TypeError`, a `KeyError`, or an `OverflowError`. -/
inductive Failure
  | value (message : String)
  | type
  | key
  | overflow
deriving DecidableEq

abbrev Checked := Except Failure

/-- How numbers of JSON are read, `float` of an integer, unless it overflows, and `hashlib.sha256`. A float is
given with the text that it is written as. -/
structure Runtime where
  numbers : Numbers
  ofInt : ℤ → Option (ℚ × List Char)
  sha256 : Text → Text
  ofInt_float : ∀ {whole value shortest}, ofInt whole = some (value, shortest) →
    FloatLiteral shortest ∧ numbers.float shortest = .float value shortest
  one : numbers.float "1.0".toList = .float 1 "1.0".toList

structure Finite where
  value : ℚ
  shortest : List Char
deriving DecidableEq

def Finite.json (number : Finite) : Json := .float number.value number.shortest

/-! ### Checks of values -/

def field (value : Json) (key : String) : Json := (value.get key).getD .null

/-- `_integer` -/
def integer (value : Json) (minimum : ℕ) (message : String) : Checked ℕ :=
  match value with
  | .int whole => if (minimum : ℤ) ≤ whole then .ok whole.toNat else .error (.value message)
  | _ => .error (.value message)

def isDigest (value : Text) : Bool :=
  value.length == 64 && value.all fun code => 48 ≤ code && code ≤ 57 || 97 ≤ code && code ≤ 102

/-- `_digest` -/
def digestText (value : Json) (message : String) : Checked Text :=
  match value with
  | .str value => if isDigest value then .ok value else .error (.value message)
  | _ => .error (.value message)

def nonempty (value : Json) (message : String) : Checked Text :=
  match value with
  | .str value => if value ≠ [] then .ok value else .error (.value message)
  | _ => .error (.value message)

/-- `_fields` -/
def fields (value : Json) (names : List String) : Checked Unit :=
  require (value.hasKeys names = true) (.value "training record has missing or unknown fields")

def iterate : Json → Checked (List Json)
  | .list items => .ok items
  | .str value => .ok (value.map fun code => .str [code])
  | .object entries => .ok (entries.map fun entry => .str entry.1)
  | _ => .error .type

def natural : Json → Option ℕ
  | .int whole => if 0 ≤ whole then some whole.toNat else none
  | _ => none

/-- `_tokens` -/
def tokens (value : Json) (name : String) : Checked (List ℕ) :=
  match value with
  | .str _ => .error (.value (name ++ " requires exact token IDs"))
  | value => do
      let values ← iterate value
      match values.mapM natural with
      | some (id :: ids) => .ok (id :: ids)
      | _ => .error (.value (name ++ " requires nonempty nonnegative integer token IDs"))

/-- A pair of a sequence that a dictionary is built of. -/
def pairOf : Json → Checked (Json × Json)
  | .list [key, value] => .ok (key, value)
  | .str [key, value] => .ok (.str [key], .str [value])
  | .object [key, value] => .ok (.str key.1, .str value.1)
  | .list _ | .str _ | .object _ => .error (.value "dictionary update sequence element has the wrong length")
  | _ => .error .type

def hashable : Json → Bool
  | .list _ | .object _ => false
  | _ => true

def numeric : Json → Option ℚ
  | .bool value => some (if value then 1 else 0)
  | .int value => some value
  | .float value _ => some value
  | _ => none

/-- Two keys are equal; numbers of different types may be. -/
def sameKey : Json → Json → Bool
  | .str first, .str second => first == second
  | .null, .null => true
  | .nonFinite first, .nonFinite second => first.name == second.name
  | first, second => (numeric first).any fun value => numeric second == some value

def putPair (pairs : List (Json × Json)) (pair : Json × Json) : List (Json × Json) :=
  if pairs.any fun other => sameKey other.1 pair.1 then
    pairs.map fun other => if sameKey other.1 pair.1 then (other.1, pair.2) else other
  else pairs ++ [pair]

/-- `dict(value)` -/
def dictOf : Json → Checked (List (Json × Json))
  | .object entries => .ok (entries.map fun entry => (.str entry.1, entry.2))
  | value => do
      let items ← iterate value
      let pairs ← items.mapM pairOf
      let _ ← require ((pairs.all fun pair => hashable pair.1) = true) .type
      return pairs.foldl putPair []

/-- The entries of a dictionary all of whose keys are texts. -/
def keyed (pairs : List (Json × Json)) : Option (List (Text × Json)) :=
  pairs.mapM fun pair =>
    match pair.1 with
    | .str key => some (key, pair.2)
    | _ => none

def namedTexts (entries : List (Text × Json)) : Option (List (Text × Text)) :=
  entries.mapM fun entry =>
    match entry.2 with
    | .str value => if entry.1 ≠ [] ∧ value ≠ [] then some (entry.1, value) else none
    | _ => none

section Constructors

variable (runtime : Runtime)

/-- `_finite` -/
def finite (value : Json) (message : String) : Checked Finite :=
  match value with
  | .int whole =>
    match runtime.ofInt whole with
    | none => .error .overflow
    | some (value, shortest) => .ok ⟨value, shortest⟩
  | .float value shortest => .ok ⟨value, shortest⟩
  | _ => .error (.value message)

/-- `None`, or what is read of another value. -/
def optional {Value : Type} (value : Json) (read : Json → Checked Value) : Checked (Option Value) :=
  match value with
  | .null => .ok none
  | value => (read value).map some

/-! ### Policies -/

structure PolicyRef where
  version : ℕ
  digest : Text
  lineage : Text
  identities : List (Text × Text)
  temperature : Finite
deriving DecidableEq

/-- `==` of policies; the order of the identities does not matter. -/
def PolicyRef.same (first second : PolicyRef) : Bool :=
  first.version == second.version && first.digest == second.digest && first.lineage == second.lineage &&
    decide (first.identities.Perm second.identities) && first.temperature.value == second.temperature.value

def isOne : Json → Bool
  | .int value => value == 1
  | .float value _ => value == 1
  | _ => false

def isInt (expected : ℤ) : Json → Bool
  | .int value => value == expected
  | _ => false

def samplingFields : List String := ["temperature", "top_p", "top_k"]

/-- `PolicyRef.__post_init__` -/
def PolicyRef.construct (version digest_ lineage identities sampling : Json) : Checked PolicyRef := do
  let version ← integer version 0 "policy version must be an integer >= 0"
  let digest ← digestText digest_ "policy digest must be a lowercase SHA256 digest"
  let lineage ← nonempty lineage "policy requires run lineage"
  let pairs ← dictOf identities
  match (keyed pairs).bind namedTexts with
  | none => .error (.value "policy identities require nonempty string names and values")
  | some identities =>
    let pairs ← dictOf sampling
    match keyed pairs with
    | none => .error (.value "training record has missing or unknown fields")
    | some entries =>
      let _ ← fields (.object entries) samplingFields
      let temperature ← finite runtime (field (.object entries) "temperature") "temperature must be finite"
      let _ ← require (0 < temperature.value ∧ isOne (field (.object entries) "top_p") = true ∧
        isInt 0 (field (.object entries) "top_k") = true)
          (.value "training requires positive temperature and full categorical sampling")
      return ⟨version, digest, lineage, identities, temperature⟩

def PolicyRef.toDict (policy : PolicyRef) : Json :=
  object [("version", .int policy.version), ("digest", .str policy.digest), ("lineage", .str policy.lineage),
    ("identities", .object (policy.identities.map fun entry => (entry.1, .str entry.2))),
    ("sampling", object [("temperature", policy.temperature.json), ("top_p", .float 1 "1.0".toList),
      ("top_k", .int 0)])]

def policyFields : List String := ["version", "digest", "lineage", "identities", "sampling"]

def PolicyRef.fromDict (value : Json) : Checked PolicyRef := do
  let _ ← fields value policyFields
  PolicyRef.construct runtime (field value "version") (field value "digest") (field value "lineage")
    (field value "identities") (field value "sampling")

/-! ### Turns -/

inductive FinishReason
  | eos
  | stop
  | length
  | toolCalls
deriving DecidableEq

def FinishReason.name : FinishReason → String
  | .eos => "eos"
  | .stop => "stop"
  | .length => "length"
  | .toolCalls => "tool_calls"

/-- The finish reason of a value that may be looked up. -/
def finishReasonOf (value : Json) : Checked FinishReason :=
  match value with
  | .str name =>
    match [FinishReason.eos, .stop, .length, .toolCalls].find? fun reason => text reason.name = name with
    | some reason => .ok reason
    | none => .error (.value "unsupported sampled finish reason")
  | .list _ | .object _ => .error .type
  | _ => .error (.value "unsupported sampled finish reason")

structure TurnTrace where
  turnId : ℕ
  requestId : Text
  context : List ℕ
  actions : List ℕ
  logProbs : List Finite
  policy : PolicyRef
  finishReason : FinishReason
  stopTokenCount : ℕ
  contextTruncation : Text
deriving DecidableEq

/-- `TurnTrace.__post_init__` -/
def TurnTrace.construct (turnId requestId context actions logProbs : Json) (policy : PolicyRef)
    (reason stopTokenCount contextTruncation : Json) : Checked TurnTrace := do
  let turnId ← integer turnId 1 "turn_id must be an integer >= 1"
  let requestId ← nonempty requestId "turn requires a request identity"
  let context ← tokens context "context_token_ids"
  let actions ← tokens actions "action_token_ids"
  let items ← iterate logProbs
  let logProbs ← items.mapM fun item => finite runtime item "behavior log probability must be finite"
  let _ ← require (actions.length = logProbs.length ∧ ∀ number ∈ logProbs, number.value ≤ 0)
    (.value "each action token requires one nonpositive behavior log probability")
  let reason ← finishReasonOf reason
  let stopTokenCount ← integer stopTokenCount 0 "stop_token_count must be an integer >= 0"
  let _ ← require (stopTokenCount ≤ actions.length) (.value "stop_token_count exceeds sampled actions")
  let contextTruncation ← nonempty contextTruncation "context truncation rule must be explicit"
  return ⟨turnId, requestId, context, actions, logProbs, policy, reason, stopTokenCount, contextTruncation⟩

def tokensJson (ids : List ℕ) : Json := .list (ids.map fun id : ℕ => .int id)

def TurnTrace.toDict (turn : TurnTrace) : Json :=
  object [("turn_id", .int turn.turnId), ("request_id", .str turn.requestId),
    ("context_token_ids", tokensJson turn.context), ("action_token_ids", tokensJson turn.actions),
    ("behavior_log_probs", .list (turn.logProbs.map Finite.json)), ("policy", turn.policy.toDict),
    ("finish_reason", .str (text turn.finishReason.name)), ("stop_token_count", .int turn.stopTokenCount),
    ("context_truncation", .str turn.contextTruncation)]

def turnFields : List String :=
  ["turn_id", "request_id", "context_token_ids", "action_token_ids", "behavior_log_probs", "policy",
    "finish_reason", "stop_token_count", "context_truncation"]

def TurnTrace.fromDict (value : Json) : Checked TurnTrace := do
  let _ ← fields value turnFields
  let policy ← PolicyRef.fromDict runtime (field value "policy")
  TurnTrace.construct runtime (field value "turn_id") (field value "request_id") (field value "context_token_ids")
    (field value "action_token_ids") (field value "behavior_log_probs") policy (field value "finish_reason")
    (field value "stop_token_count") (field value "context_truncation")

/-! ### Trajectories -/

structure TrainingTrajectory where
  groupId : ℕ
  taskId : Text
  initialContext : Text
  reset : Text
  sampleIndex : ℕ
  turns : List TurnTrace
  reward : Option Finite
  rewardEligible : Bool
  exclusionReason : Option Text
  evidence : List (Text × Json)
  sampleId : Text
  rawReward : Option Finite
  samplingSeed : Option ℕ

/-- `token_digest`; none where an integer has too many digits. -/
def tokenDigest (ids : List ℕ) : Option Text := (encode runtime.numbers (tokensJson ids)).map runtime.sha256

/-- The text of a key as `json.dumps` writes it; none where it is not finite. -/
def keyText : Json → Option Text
  | .str key => some key
  | .null => some (text "null")
  | .bool value => some (text (if value then "true" else "false"))
  | .int value => some (codes (toString value).toList)
  | .float _ shortest => some (codes shortest)
  | _ => none

/-- The entries of a dictionary as `json.dumps` writes them. -/
def keyTexts (pairs : List (Json × Json)) : Option (List (Text × Json)) :=
  pairs.mapM fun pair => (keyText pair.1).map fun key => (key, pair.2)

/-- `json.dumps(value, allow_nan=False)`; none where it raises. -/
def dumpsSpaced (value : Json) : Option Text :=
  if value.finite && value.fits runtime.numbers then some (codes (Lib.dumps .spaced value)) else none

/-- Evidence as JSON data: `json.loads(json.dumps(dict(evidence), allow_nan=False))`. -/
def normalise (evidence : Json) : Checked (List (Text × Json)) := do
  let pairs ← dictOf evidence
  match ((keyTexts pairs).bind fun entries => dumpsSpaced runtime (.object entries)).bind (decode runtime.numbers) with
  | some (.object entries) => .ok entries
  | _ => .error (.value "evidence is no JSON data")

def sampleIdentity (value : Json) (groupId sampleIndex : ℕ) : Checked Text :=
  match value with
  | .null =>
    if runtime.numbers.Fits groupId ∧ runtime.numbers.Fits sampleIndex then
      .ok (codes (Nat.toDigits 10 groupId) ++ 58 :: codes (Nat.toDigits 10 sampleIndex))
    else .error (.value "an integer has too many digits")
  | value => nonempty value "trajectory requires sample identity"

def flag (value : Json) (message : String) : Checked Bool :=
  match value with
  | .bool value => .ok value
  | _ => .error (.value message)

def exclusion (eligible : Bool) (reason : Json) : Checked (Option Text) :=
  if eligible then
    match reason with
    | .null => .ok none
    | _ => .error (.value "eligible trajectory cannot have an exclusion reason")
  else (nonempty reason "excluded trajectory requires a reason").map some

/-- `TrainingTrajectory.__post_init__` -/
def TrainingTrajectory.construct (groupId taskId initialContext reset sampleIndex : Json) (turns : List TurnTrace)
    (reward rewardEligible exclusionReason evidence sampleId rawReward samplingSeed : Json) :
    Checked TrainingTrajectory := do
  let groupId ← integer groupId 0 "training group_id must be an integer >= 0"
  let sampleIndex ← integer sampleIndex 0 "sample_index must be an integer >= 0"
  let taskId ← nonempty taskId "trajectory requires task identity"
  let initialContext ← digestText initialContext "initial context digest must be a lowercase SHA256 digest"
  let reset ← digestText reset "reset digest must be a lowercase SHA256 digest"
  match turns with
  | [] => .error (.value "trajectory requires exact turn traces")
  | first :: rest =>
    let turns := first :: rest
    let _ ← require (turns.map TurnTrace.turnId = List.range' 1 turns.length)
      (.value "trajectory turn IDs must be consecutive and ordered")
    let _ ← require (turns.map TurnTrace.requestId).Nodup (.value "trajectory has duplicate request identities")
    let _ ← require (∀ turn ∈ turns, turn.policy.same first.policy = true)
      (.value "all trajectory turns require one policy receipt")
    let _ ← require (tokenDigest runtime first.context = some initialContext)
      (.value "initial context digest differs from actual tokens")
    let eligible ← flag rewardEligible "reward eligibility must be explicit"
    let reward ← optional reward fun value => finite runtime value "reward must be finite"
    let rawReward ← optional rawReward fun value => finite runtime value "raw reward must be finite"
    let reason ← exclusion eligible exclusionReason
    let samplingSeed ← optional samplingSeed fun value => integer value 0 "sampling_seed must be an integer >= 0"
    let sampleId ← sampleIdentity runtime sampleId groupId sampleIndex
    let evidence ← normalise runtime evidence
    return ⟨groupId, taskId, initialContext, reset, sampleIndex, turns, reward, eligible, reason, evidence, sampleId,
      rawReward, samplingSeed⟩

/-- `None`, or the value. -/
def optionJson {Value : Type} (write : Value → Json) : Option Value → Json
  | none => .null
  | some value => write value

def TrainingTrajectory.toDict (trajectory : TrainingTrajectory) : Json :=
  object [("group_id", .int trajectory.groupId), ("task_id", .str trajectory.taskId),
    ("initial_context_sha256", .str trajectory.initialContext), ("reset_sha256", .str trajectory.reset),
    ("sample_index", .int trajectory.sampleIndex), ("sample_id", .str trajectory.sampleId),
    ("turns", .list (trajectory.turns.map TurnTrace.toDict)), ("reward", optionJson Finite.json trajectory.reward),
    ("reward_eligible", .bool trajectory.rewardEligible),
    ("exclusion_reason", optionJson Json.str trajectory.exclusionReason), ("evidence", .object trajectory.evidence),
    ("raw_reward", optionJson Finite.json trajectory.rawReward),
    ("sampling_seed", optionJson (fun seed : ℕ => .int seed) trajectory.samplingSeed)]

def trajectoryFields : List String :=
  ["group_id", "task_id", "initial_context_sha256", "reset_sha256", "sample_index", "turns", "reward",
    "reward_eligible", "exclusion_reason", "evidence", "sample_id", "raw_reward", "sampling_seed"]

def TrainingTrajectory.fromDict (value : Json) : Checked TrainingTrajectory := do
  let _ ← fields value trajectoryFields
  let items ← iterate (field value "turns")
  let turns ← items.mapM (TurnTrace.fromDict runtime)
  TrainingTrajectory.construct runtime (field value "group_id") (field value "task_id")
    (field value "initial_context_sha256") (field value "reset_sha256") (field value "sample_index") turns
    (field value "reward") (field value "reward_eligible") (field value "exclusion_reason") (field value "evidence")
    (field value "sample_id") (field value "raw_reward") (field value "sampling_seed")

def TrainingTrajectory.policy (trajectory : TrainingTrajectory) : Option PolicyRef :=
  trajectory.turns.head?.map TurnTrace.policy

/-! ### Groups -/

structure TrainingGroup where
  groupId : ℕ
  taskId : Text
  initialContext : Text
  reset : Text
  policy : PolicyRef
  expectedSize : ℕ
  samples : List TrainingTrajectory

def isText (value : Json) (expected : Text) : Bool :=
  match value with
  | .str value => value == expected
  | _ => false

def belongs (groupId : ℕ) (taskId initialContext reset : Json) (policy : PolicyRef) (sample : TrainingTrajectory) :
    Bool :=
  sample.groupId == groupId && isText taskId sample.taskId && isText initialContext sample.initialContext &&
    isText reset sample.reset && sample.policy.any fun own => own.same policy

/-- `TrainingGroup.__post_init__` -/
def TrainingGroup.construct (groupId taskId initialContext reset : Json) (policy : PolicyRef) (expectedSize : Json)
    (samples : List TrainingTrajectory) : Checked TrainingGroup := do
  let groupId ← integer groupId 0 "training group_id must be an integer >= 0"
  let size ← integer expectedSize 2 "expected group size must be an integer >= 2"
  let _ ← require (samples.length = size) (.value "training requires a complete group of exactly G trajectories")
  let _ ← require ((samples.map TrainingTrajectory.sampleIndex).Perm (List.range size) ∧
      (samples.map TrainingTrajectory.sampleId).Nodup)
    (.value "training group requires unique sample identities and indices 0..G-1")
  let _ ← require ((samples.flatMap TrainingTrajectory.turns).map TurnTrace.requestId).Nodup
    (.value "training group has duplicate request identities")
  let _ ← samples.mapM fun sample => do
    let _ ← require (belongs groupId taskId initialContext reset policy sample = true)
      (.value "training group requires the same task, initial context, reset and policy")
    require (sample.rewardEligible = true ∧ sample.reward ≠ none)
      (.value "training requires G eligible finite rewards; missing is not zero")
  match taskId, initialContext, reset with
  | .str taskId, .str initialContext, .str reset =>
    return ⟨groupId, taskId, initialContext, reset, policy, size,
      samples.insertionSort fun first second => first.sampleIndex ≤ second.sampleIndex⟩
  -- There is a sample, and it has the same texts.
  | _, _, _ => .error .type

def TrainingGroup.toDict (group : TrainingGroup) : Json :=
  object [("group_id", .int group.groupId), ("task_id", .str group.taskId),
    ("initial_context_sha256", .str group.initialContext), ("reset_sha256", .str group.reset),
    ("policy", group.policy.toDict), ("expected_size", .int group.expectedSize),
    ("samples", .list (group.samples.map TrainingTrajectory.toDict))]

def groupFields : List String :=
  ["group_id", "task_id", "initial_context_sha256", "reset_sha256", "policy", "expected_size", "samples"]

def TrainingGroup.fromDict (value : Json) : Checked TrainingGroup := do
  let _ ← fields value groupFields
  let policy ← PolicyRef.fromDict runtime (field value "policy")
  let items ← iterate (field value "samples")
  let samples ← items.mapM (TrainingTrajectory.fromDict runtime)
  TrainingGroup.construct (field value "group_id") (field value "task_id") (field value "initial_context_sha256")
    (field value "reset_sha256") policy (field value "expected_size") samples

/-! ### Texts -/

inductive Record
  | policy (record : PolicyRef)
  | turn (record : TurnTrace)
  | trajectory (record : TrainingTrajectory)
  | group (record : TrainingGroup)

inductive Kind
  | policy
  | turn
  | trajectory
  | group
deriving DecidableEq

def Kind.name : Kind → String
  | .policy => "PolicyRef"
  | .turn => "TurnTrace"
  | .trajectory => "TrainingTrajectory"
  | .group => "TrainingGroup"

def Record.kind : Record → Kind
  | .policy _ => .policy
  | .turn _ => .turn
  | .trajectory _ => .trajectory
  | .group _ => .group

def Record.toDict : Record → Json
  | .policy record => record.toDict
  | .turn record => record.toDict
  | .trajectory record => record.toDict
  | .group record => record.toDict

/-- `from_dict` of a type. -/
def Record.fromDict (kind : Kind) (value : Json) : Checked Record :=
  match kind with
  | .policy => (PolicyRef.fromDict runtime value).map .policy
  | .turn => (TurnTrace.fromDict runtime value).map .turn
  | .trajectory => (TrainingTrajectory.fromDict runtime value).map .trajectory
  | .group => (TrainingGroup.fromDict runtime value).map .group

/-- A record with its type and the version of the schema. -/
def Record.payload (record : Record) : Json :=
  object [("schema_version", .int 1), ("kind", literal record.kind.name), ("record", record.toDict)]

/-- `dumps`; none where it raises. -/
def dumps (record : Record) : Option Text := encode runtime.numbers record.payload

/-- `_RECORDS[kind]` -/
def recordKind (value : Json) : Checked Kind :=
  match value with
  | .str name =>
    match [Kind.policy, .turn, .trajectory, .group].find? fun kind => text kind.name = name with
    | some kind => .ok kind
    | none => .error (.value "unsupported training record schema or kind")
  | .list _ | .object _ => .error .type
  | _ => .error (.value "unsupported training record schema or kind")

def payloadFields : List String := ["schema_version", "kind", "record"]

/-- `loads` -/
def loads (input : Text) : Checked Record :=
  match strictLoads runtime.numbers input with
  | none => .error (.value "invalid JSON")
  | some payload => do
      let _ ← fields payload payloadFields
      let _ ← require (isInt 1 (field payload "schema_version") = true)
        (.value "unsupported training record schema or kind")
      let kind ← recordKind (field payload "kind")
      Record.fromDict runtime kind (field payload "record")

end Constructors

end TinyDSV41.Records
