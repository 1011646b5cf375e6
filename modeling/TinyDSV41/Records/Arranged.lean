/-
**Records and their dictionaries.**

What each constructor accepts, and what is built of the dictionary of a record, whatever the order of its keys.

* `PolicyRef.Valid`, `TurnTrace.Valid`, `TrainingTrajectory.Valid`, `TrainingGroup.Valid` — what holds of a record
  that is built.
* `fromDict_arranged` — a valid record is built again of its dictionary.
* `fromDict_loaded` — what is built of a loaded value is valid, and may be written.
-/

import TinyDSV41.Records.Loading

namespace TinyDSV41.Records

open List Lib TrainingTrajectory TurnTrace Json PolicyRef Finite TrainingGroup FinishReason
open List.Perm (refl)

variable {runtime : Runtime}

/-! ### Policies -/

variable (style : Style) (identities : List (Text × Text))

def arrangeTexts (style : Style) (identities : List (Text × Text)) : List (Text × Text) :=
  if style.sorted then identities.insertionSort fun first second => first.1 ≤ second.1 else identities

theorem arrangeTexts_perm :
    (arrangeTexts style identities).Perm identities := by
  unfold arrangeTexts
  split_ifs
  · exact perm_insertionSort _ identities
  · exact refl identities

def textsJson (identities : List (Text × Text)) : Json := .object (identities.map fun entry => (entry.1, .str entry.2))

theorem textsJson_arranged :
    (textsJson identities).arranged style = textsJson (arrangeTexts style identities) := by
  unfold textsJson
  rw [Json.arranged, arrangedEntries_map, map_map]
  refine congrArg Json.object ?_
  unfold Style.order arrangeTexts
  split_ifs
  · exact sort_map (fun entry : Text × Text => (entry.1, str entry.2)) (fun _ => rfl) identities
  · rfl

theorem textsJson_distinct {identities : List (Text × Text)} (keys : (identities.map Prod.fst).Nodup) :
    (textsJson identities).distinct = true := by
  refine distinct_object.mpr ⟨?_, forall_mem_map.mpr fun _ _ => rfl⟩
  rw [map_map]
  exact keys

variable {value : Json} {style : Style}

namespace PolicyRef

/-- What holds of a policy that is built. -/
structure Valid (policy : PolicyRef) : Prop where
  digest : isDigest policy.digest = true
  lineage : policy.lineage ≠ []
  keys : (policy.identities.map Prod.fst).Nodup
  named : ∀ entry ∈ policy.identities, entry.1 ≠ [] ∧ entry.2 ≠ []
  warm : 0 < policy.temperature.value

def arranged (style : Style) (policy : PolicyRef) : PolicyRef :=
  { policy with identities := arrangeTexts style policy.identities }

variable {policy : PolicyRef}

def sampling (policy : PolicyRef) : Json :=
  object [("temperature", policy.temperature.json), ("top_p", .float 1 "1.0".toList), ("top_k", .int 0)]

theorem sampling_distinct (policy : PolicyRef) : policy.sampling.distinct = true := by
  have keys : samplingFields.Nodup := by decide
  refine distinct_literal keys ?_
  exact ⟨rfl, rfl, rfl⟩

theorem toDict_distinct (valid : policy.Valid) : policy.toDict.distinct = true := by
  have keys : policyFields.Nodup := by decide
  refine distinct_literal keys ?_
  exact ⟨rfl, rfl, rfl, textsJson_distinct valid.keys, sampling_distinct policy⟩

theorem toDict_finite (policy : PolicyRef) : policy.toDict.finite = true := by
  refine literal_finite ?_
  exact ⟨rfl, rfl, rfl, finiteEntries_iff.mpr (forall_mem_map.mpr fun _ _ => rfl), rfl⟩

theorem construct_ok {version digest lineage identities sampling : Json} :
    construct runtime version digest lineage identities sampling = .ok policy ↔
      (version = .int policy.version ∧ (digest = .str policy.digest ∧ isDigest policy.digest = true) ∧
        lineage = .str policy.lineage ∧ policy.lineage ≠ []) ∧
      (∃ pairs, dictOf identities = .ok pairs ∧ (keyed pairs).bind namedTexts = some policy.identities) ∧
      ∃ pairs entries, (dictOf sampling = .ok pairs ∧ keyed pairs = some entries) ∧
        (Json.object entries).hasKeys samplingFields = true ∧
        finite runtime (field (.object entries) "temperature") "temperature must be finite" = .ok policy.temperature ∧
        0 < policy.temperature.value ∧ isOne (field (.object entries) "top_p") = true ∧
        isInt 0 (field (.object entries) "top_k") = true := by
  constructor
  · intro built
    obtain ⟨version_, isVersion, built⟩ := bind_eq_ok.mp built
    obtain ⟨digest_, isDigest_, built⟩ := bind_eq_ok.mp built
    obtain ⟨lineage_, isLineage, built⟩ := bind_eq_ok.mp built
    obtain ⟨pairs, paired, built⟩ := bind_eq_ok.mp built
    split at built
    · cases built
    · rename_i named isNamed
      obtain ⟨pairs', paired', built⟩ := bind_eq_ok.mp built
      split at built
      · cases built
      · rename_i entries isKeyed
        obtain ⟨_, complete, built⟩ := bind_eq_ok.mp built
        obtain ⟨temperature, isTemperature, built⟩ := bind_eq_ok.mp built
        obtain ⟨_, warm, built⟩ := bind_eq_ok.mp built
        cases built
        exact ⟨⟨(integer_ok.mp isVersion).1, digestText_ok.mp isDigest_, nonempty_ok.mp isLineage⟩,
          ⟨pairs, paired, isNamed⟩, pairs', entries, ⟨paired', isKeyed⟩, fields_ok.mp complete, isTemperature,
          require_eq_ok.mp warm⟩
  · rintro ⟨⟨rfl, digest_, lineage_⟩, ⟨pairs, paired, isNamed⟩, pairs', entries, ⟨paired', isKeyed⟩, complete,
      temperature, warm⟩
    refine ok_bind (integer_ok.mpr ⟨rfl, Nat.zero_le _⟩) ?_
    refine ok_bind (digestText_ok.mpr digest_) (ok_bind (nonempty_ok.mpr lineage_) ?_)
    refine ok_bind paired ?_
    rw [isNamed]
    refine ok_bind paired' ?_
    rw [isKeyed]
    refine ok_bind (fields_ok.mpr complete) (ok_bind temperature ?_)
    exact ok_bind (require_ok warm) rfl

/-- **A policy is built again of its dictionary**, in any order of keys. -/
theorem fromDict_arranged (valid : policy.Valid) (style : Style) :
    fromDict runtime (policy.toDict.arranged style) = .ok (policy.arranged style) := by
  have distinct := toDict_distinct valid
  have sampling_ := sampling_distinct policy
  have complete : policy.toDict.hasKeys policyFields = true := hasKeys_object (refl policyFields)
  have inner : field policy.toDict "sampling" = policy.sampling := by simp [toDict, sampling]
  have identities : field policy.toDict "identities" = textsJson policy.identities := by simp [toDict, textsJson]
  refine ok_bind (fields_ok.mpr ((hasKeys_arranged _ _).trans complete)) ?_
  rw [field_arranged distinct, field_arranged distinct, field_arranged distinct, field_arranged distinct,
    field_arranged distinct, inner, identities, textsJson_arranged]
  obtain ⟨entries, shape⟩ : ∃ entries, policy.sampling.arranged style = .object entries := ⟨_, rfl⟩
  refine construct_ok.mpr ⟨⟨?_, ⟨?_, valid.digest⟩, ?_, valid.lineage⟩, ⟨_, rfl, ?_⟩,
    entries.map fun entry => (.str entry.1, entry.2), entries, ⟨?_, keyed_object entries⟩, ?_⟩
  · simp [toDict, arranged, Json.arranged]
  · simp [toDict, arranged, Json.arranged]
  · simp [toDict, arranged, Json.arranged]
  · rw [keyed_object]
    refine namedTexts_some.mpr ⟨rfl, fun entry mem => valid.named entry ?_⟩
    exact (arrangeTexts_perm style policy.identities).mem_iff.mp mem
  · rw [shape]
    rfl
  · rw [← shape, hasKeys_arranged, field_arranged sampling_, field_arranged sampling_, field_arranged sampling_]
    refine ⟨hasKeys_object (refl samplingFields), finite_ok.mpr (Or.inl ?_), valid.warm, ?_, ?_⟩
    · simp [sampling, arranged, json, Json.arranged]
    · simp [sampling, Json.arranged, isOne]
    · simp [sampling, Json.arranged, isInt]

theorem fromDict_loaded (loaded : Loaded runtime value)
    (built : fromDict runtime value = .ok policy) :
    policy.Valid ∧ policy.toDict.Readable runtime.numbers.strict := by
  obtain ⟨_, -, built⟩ := bind_eq_ok.mp built
  obtain ⟨⟨version, ⟨digest, isDigest_⟩, lineage, some_⟩, ⟨pairs, paired, named⟩, pairs', entries, ⟨paired', keyed_⟩, -,
    temperature, warm, -⟩ := construct_ok.mp built
  obtain ⟨texts, isKeyed, named⟩ := Option.bind_eq_some_iff.mp named
  obtain ⟨rfl, all⟩ := namedTexts_some.mp named
  have identities := keyed_loaded (loaded.field "identities") paired isKeyed
  have sampling := keyed_loaded (loaded.field "sampling") paired' keyed_
  have keys := (distinct_object.mp identities.2).1
  rw [map_map] at keys
  refine ⟨⟨isDigest_, some_, keys, all, warm⟩, ?_⟩
  have names : ∀ name ∈ policyFields, Plain (text name) := by decide
  have ways : ∀ name ∈ samplingFields, Plain (text name) := by decide
  refine literal_readable names (forall_iff_forall_mem.mp ?_)
  refine ⟨(version ▸ (loaded.field "version")).strict rfl, (digest ▸ (loaded.field "digest")).strict rfl,
    (lineage ▸ (loaded.field "lineage")).strict rfl, ?_, literal_readable ways ?_⟩
  · refine readableEntries_iff.mpr (forall_mem_map.mpr fun entry mem => ?_)
    obtain ⟨plain, inner⟩ := identities.entries _ (mem_map_of_mem mem)
    exact ⟨plain, inner.strict rfl⟩
  · refine forall_iff_forall_mem.mp ?_
    exact ⟨(sampling.field "temperature").finite temperature, ⟨floatLiteral_one, runtime.one⟩, fits_digit (by decide)⟩

theorem toDict_arranged (policy : PolicyRef) (style : Style) :
    (policy.arranged style).toDict.arranged style = policy.toDict.arranged style := by
  have identities : (textsJson (arrangeTexts style policy.identities)).arranged style
      = (textsJson policy.identities).arranged style := by
    rw [← textsJson_arranged, arranged_arranged]
  unfold textsJson at identities
  refine arranged_literal ?_
  simp only [map_cons, map_nil, arranged, identities]

theorem arranged_unsorted (unsorted : style.sorted = false) (policy : PolicyRef) :
    policy.arranged style = policy := by
  have kept : arrangeTexts style policy.identities = policy.identities := by
    unfold arrangeTexts
    rw [unsorted]
    rfl
  unfold arranged
  rw [kept]

theorem same_arranged (first second : PolicyRef) (style : Style) :
    (first.arranged style).same (second.arranged style) = first.same second := by
  have identities : (arrangeTexts style first.identities).Perm (arrangeTexts style second.identities) ↔
      first.identities.Perm second.identities :=
    (arrangeTexts_perm style first.identities).congr_left _ |>.trans
      ((arrangeTexts_perm style second.identities).congr_right _)
  simp only [same, arranged, identities]

end PolicyRef

/-! ### Turns -/

theorem finishReasonOf_ok {reason : FinishReason} :
    finishReasonOf value = .ok reason ↔ value = .str (text reason.name) := by
  cases value with
  | str name =>
    have found : finishReasonOf (.str name) = .ok reason ↔
        [eos, .stop, .length, .toolCalls].find? (fun reason => text reason.name = name) = some reason := by
      simp only [finishReasonOf]
      cases [eos, .stop, .length, .toolCalls].find? (fun reason => text reason.name = name) with
      | none => exact ⟨nofun, nofun⟩
      | some other => rw [Except.ok.injEq, Option.some_inj]
    rw [found, str.injEq]
    constructor
    · intro found
      exact (by simpa using find?_some found : text reason.name = name).symm
    · rintro rfl
      cases reason <;> decide
  | _ => exact ⟨nofun, nofun⟩

theorem tokensJson_arranged (ids : List ℕ) : (tokensJson ids).arranged style = tokensJson ids := by
  unfold tokensJson
  rw [Json.arranged, arrangedItems_map, map_map]
  rfl

theorem tokensJson_finite (ids : List ℕ) : (tokensJson ids).finite = true :=
  finiteItems_iff.mpr (forall_mem_map.mpr fun _ _ => rfl)

theorem numbersJson_arranged (numbers : List Finite) :
    (list (numbers.map json)).arranged style = .list (numbers.map json) := by
  rw [Json.arranged, arrangedItems_map, map_map]
  rfl

namespace TurnTrace

/-- What holds of a turn that is built. -/
structure Valid (turn : TurnTrace) : Prop where
  turnId : 1 ≤ turn.turnId
  requestId : turn.requestId ≠ []
  context : turn.context ≠ []
  actions : turn.actions ≠ []
  logProbs : turn.actions.length = turn.logProbs.length ∧ ∀ number ∈ turn.logProbs, number.value ≤ 0
  stop : turn.stopTokenCount ≤ turn.actions.length
  truncation : turn.contextTruncation ≠ []
  policy : turn.policy.Valid

def arranged (style : Style) (turn : TurnTrace) : TurnTrace := { turn with policy := turn.policy.arranged style }

variable {turn : TurnTrace}

theorem toDict_distinct (valid : turn.Valid) : turn.toDict.distinct = true := by
  have keys : turnFields.Nodup := by decide
  refine distinct_literal keys ?_
  exact ⟨rfl, rfl, distinctItems_iff.mpr (forall_mem_map.mpr fun _ _ => rfl),
    distinctItems_iff.mpr (forall_mem_map.mpr fun _ _ => rfl),
    distinctItems_iff.mpr (forall_mem_map.mpr fun _ _ => rfl), PolicyRef.toDict_distinct valid.policy, rfl, rfl, rfl⟩

theorem toDict_finite (turn : TurnTrace) : turn.toDict.finite = true := by
  refine literal_finite ?_
  exact ⟨rfl, rfl, tokensJson_finite _, tokensJson_finite _, finiteItems_iff.mpr (forall_mem_map.mpr fun _ _ => rfl),
    PolicyRef.toDict_finite _, rfl, rfl, rfl⟩

theorem construct_ok {turnId requestId context actions logProbs reason stop truncation : Json} {policy : PolicyRef} :
    construct runtime turnId requestId context actions logProbs policy reason stop truncation = .ok turn ↔
      (turnId = .int turn.turnId ∧ 1 ≤ turn.turnId) ∧ (requestId = .str turn.requestId ∧ turn.requestId ≠ []) ∧
      (context = tokensJson turn.context ∧ turn.context ≠ []) ∧ (actions = tokensJson turn.actions ∧ turn.actions ≠ []) ∧
      (∃ items, iterate logProbs = .ok items ∧
        List.Forall₂ (fun item number => finite runtime item "behavior log probability must be finite" = .ok number)
          items turn.logProbs) ∧
      (turn.actions.length = turn.logProbs.length ∧ ∀ number ∈ turn.logProbs, number.value ≤ 0) ∧
      policy = turn.policy ∧ reason = .str (text turn.finishReason.name) ∧ stop = .int turn.stopTokenCount ∧
      turn.stopTokenCount ≤ turn.actions.length ∧ truncation = .str turn.contextTruncation ∧
      turn.contextTruncation ≠ [] := by
  constructor
  · intro built
    obtain ⟨turnId_, isTurn, built⟩ := bind_eq_ok.mp built
    obtain ⟨requestId_, isRequest, built⟩ := bind_eq_ok.mp built
    obtain ⟨context_, isContext, built⟩ := bind_eq_ok.mp built
    obtain ⟨actions_, isActions, built⟩ := bind_eq_ok.mp built
    obtain ⟨items, iterated, built⟩ := bind_eq_ok.mp built
    obtain ⟨numbers, each, built⟩ := bind_eq_ok.mp built
    obtain ⟨_, checked, built⟩ := bind_eq_ok.mp built
    obtain ⟨reason_, isReason, built⟩ := bind_eq_ok.mp built
    obtain ⟨stop_, isStop, built⟩ := bind_eq_ok.mp built
    obtain ⟨_, within, built⟩ := bind_eq_ok.mp built
    obtain ⟨truncation_, isTruncation, built⟩ := bind_eq_ok.mp built
    cases built
    exact ⟨integer_ok.mp isTurn, nonempty_ok.mp isRequest, tokens_ok.mp isContext, tokens_ok.mp isActions,
      ⟨items, iterated, mapM_eq_ok.mp each⟩, require_eq_ok.mp checked, rfl, finishReasonOf_ok.mp isReason,
      (integer_ok.mp isStop).1, require_eq_ok.mp within, nonempty_ok.mp isTruncation⟩
  · rintro ⟨isTurn, isRequest, isContext, isActions, ⟨items, iterated, each⟩, checked, rfl, isReason, isStop, within,
      isTruncation⟩
    refine ok_bind (integer_ok.mpr isTurn) (ok_bind (nonempty_ok.mpr isRequest) ?_)
    refine ok_bind (tokens_ok.mpr isContext) (ok_bind (tokens_ok.mpr isActions) ?_)
    refine ok_bind iterated (ok_bind (mapM_eq_ok.mpr each) ?_)
    refine ok_bind (require_ok checked) (ok_bind (finishReasonOf_ok.mpr isReason) ?_)
    refine ok_bind (integer_ok.mpr ⟨isStop, Nat.zero_le _⟩) ?_
    exact ok_bind (require_ok within) (ok_bind (nonempty_ok.mpr isTruncation) rfl)

/-- **A turn is built again of its dictionary**, in any order of keys. -/
theorem fromDict_arranged (valid : turn.Valid) (style : Style) :
    TurnTrace.fromDict runtime (turn.toDict.arranged style) = .ok (turn.arranged style) := by
  have distinct := toDict_distinct valid
  have complete : turn.toDict.hasKeys turnFields = true := hasKeys_object (refl turnFields)
  refine ok_bind (fields_ok.mpr ((hasKeys_arranged _ _).trans complete)) ?_
  simp only [field_arranged distinct]
  have policy : field turn.toDict "policy" = turn.policy.toDict := by simp [toDict]
  have context : field turn.toDict "context_token_ids" = tokensJson turn.context := by simp [toDict]
  have actions : field turn.toDict "action_token_ids" = tokensJson turn.actions := by simp [toDict]
  have numbers : field turn.toDict "behavior_log_probs" = .list (turn.logProbs.map json) := by simp [toDict]
  rw [policy, context, actions, numbers, tokensJson_arranged, tokensJson_arranged, numbersJson_arranged]
  refine ok_bind (PolicyRef.fromDict_arranged valid.policy style) (construct_ok.mpr ?_)
  refine ⟨⟨?_, valid.turnId⟩, ⟨?_, valid.requestId⟩, ⟨rfl, valid.context⟩, ⟨rfl, valid.actions⟩, ⟨_, rfl, ?_⟩,
    valid.logProbs, rfl, ?_, ?_, valid.stop, ?_, valid.truncation⟩
  · simp [toDict, arranged, Json.arranged]
  · simp [toDict, arranged, Json.arranged]
  · rw [forall₂_map_left_iff]
    exact forall₂_same.mpr fun number _ => finite_ok.mpr (Or.inl rfl)
  all_goals simp [toDict, arranged, Json.arranged]

theorem fromDict_loaded (loaded : Loaded runtime value)
    (built : TurnTrace.fromDict runtime value = .ok turn) :
    turn.Valid ∧ turn.toDict.Readable runtime.numbers.strict := by
  obtain ⟨_, -, built⟩ := bind_eq_ok.mp built
  obtain ⟨policy, isPolicy, built⟩ := bind_eq_ok.mp built
  obtain ⟨⟨turnId, least⟩, ⟨requestId, some_⟩, ⟨context, tokens_⟩, ⟨actions, acted⟩, ⟨items, iterated, each⟩, numbers, rfl,
    reason, stop, within, truncation, explicit⟩ := construct_ok.mp built
  obtain ⟨policy_, written⟩ := PolicyRef.fromDict_loaded (loaded.field "policy") isPolicy
  refine ⟨⟨least, some_, tokens_, acted, numbers, within, explicit, policy_⟩, ?_⟩
  have names : ∀ name ∈ turnFields, Plain (text name) := by decide
  refine literal_readable names (forall_iff_forall_mem.mp ?_)
  refine ⟨(turnId ▸ (loaded.field "turn_id")).strict rfl, (requestId ▸ (loaded.field "request_id")).strict rfl,
    (context ▸ (loaded.field "context_token_ids")).strict (tokensJson_finite _),
    (actions ▸ (loaded.field "action_token_ids")).strict (tokensJson_finite _), ?_, written,
    (reason ▸ (loaded.field "finish_reason")).strict rfl, (stop ▸ (loaded.field "stop_token_count")).strict rfl,
    (truncation ▸ (loaded.field "context_truncation")).strict rfl⟩
  refine readableItems_iff.mpr (forall_mem_map.mpr fun number mem => ?_)
  obtain ⟨item, there, read⟩ := forall₂_right each mem
  exact ((loaded.field "behavior_log_probs").iterate iterated item there).finite read

theorem toDict_arranged (turn : TurnTrace) (style : Style) :
    (turn.arranged style).toDict.arranged style = turn.toDict.arranged style := by
  refine arranged_literal ?_
  simp only [map_cons, map_nil, arranged, PolicyRef.toDict_arranged]

theorem arranged_unsorted (unsorted : style.sorted = false) (turn : TurnTrace) :
    turn.arranged style = turn := by
  unfold arranged
  rw [PolicyRef.arranged_unsorted unsorted]

end TurnTrace

/-! ### Trajectories -/

variable {initialContext : Json}

namespace TrainingTrajectory

/-- What a trajectory checks of its turns and identities. -/
structure Checked (runtime : Runtime) (trajectory : TrainingTrajectory) : Prop where
  taskId : trajectory.taskId ≠ []
  initialContext : isDigest trajectory.initialContext = true
  reset : isDigest trajectory.reset = true
  turns : trajectory.turns ≠ []
  turnIds : trajectory.turns.map turnId = range' 1 trajectory.turns.length
  requestIds : (trajectory.turns.map requestId).Nodup
  policies : ∀ first ∈ trajectory.turns.head?, ∀ turn ∈ trajectory.turns, turn.policy.same first.policy = true
  context : ∀ first ∈ trajectory.turns.head?, tokenDigest runtime first.context = some trajectory.initialContext

/-- What holds of a trajectory that is built. -/
structure Valid (runtime : Runtime) (trajectory : TrainingTrajectory) : Prop extends Checked runtime trajectory where
  each : ∀ turn ∈ trajectory.turns, turn.Valid
  exclusion : exclusion trajectory.rewardEligible (optionJson str trajectory.exclusionReason)
    = .ok trajectory.exclusionReason
  sampleId : trajectory.sampleId ≠ []
  evidence : (Json.object trajectory.evidence).Readable runtime.numbers.strict ∧
    (Json.object trajectory.evidence).distinct = true

def arranged (style : Style) (trajectory : TrainingTrajectory) : TrainingTrajectory :=
  { trajectory with
    turns := trajectory.turns.map (TurnTrace.arranged style)
    evidence := style.order (arrangedEntries style trajectory.evidence) }

variable {trajectory : TrainingTrajectory}

def writtenFields : List String :=
  ["group_id", "task_id", "initial_context_sha256", "reset_sha256", "sample_index", "sample_id", "turns", "reward",
    "reward_eligible", "exclusion_reason", "evidence", "raw_reward", "sampling_seed"]

theorem toDict_complete (trajectory : TrainingTrajectory) : trajectory.toDict.hasKeys trajectoryFields = true := by
  have same : writtenFields.Perm trajectoryFields := by decide
  exact hasKeys_object same

theorem toDict_distinct (valid : trajectory.Valid runtime) : trajectory.toDict.distinct = true := by
  have keys : writtenFields.Nodup := by decide
  refine distinct_literal keys ?_
  have turns : ∀ item ∈ trajectory.turns.map TurnTrace.toDict, item.distinct = true :=
    forall_mem_map.mpr fun turn mem => TurnTrace.toDict_distinct (valid.each turn mem)
  exact ⟨rfl, rfl, rfl, rfl, rfl, rfl, distinctItems_iff.mpr turns, optionJson_distinct fun _ => rfl, rfl,
    optionJson_distinct fun _ => rfl, valid.evidence.2, optionJson_distinct fun _ => rfl,
    optionJson_distinct fun _ => rfl⟩

theorem toDict_finite (valid : trajectory.Valid runtime) : trajectory.toDict.finite = true := by
  refine literal_finite ?_
  exact ⟨rfl, rfl, rfl, rfl, rfl, rfl,
    finiteItems_iff.mpr (forall_mem_map.mpr fun turn _ => TurnTrace.toDict_finite turn),
    optionJson_finite fun _ => rfl, rfl, optionJson_finite fun _ => rfl, (readable_strict valid.evidence.1).1,
    optionJson_finite fun _ => rfl, optionJson_finite fun _ => rfl⟩

theorem Checked.arranged (checked : trajectory.Checked runtime) (style : Style) :
    (trajectory.arranged style).Checked runtime := by
  have ids : (trajectory.arranged style).turns.map turnId = trajectory.turns.map turnId :=
    map_map
  have requests : (trajectory.arranged style).turns.map requestId
      = trajectory.turns.map requestId := map_map
  have heads : ∀ {holds : TurnTrace → Prop}, (∀ first ∈ trajectory.turns.head?, holds (first.arranged style)) →
      ∀ first ∈ (trajectory.arranged style).turns.head?, holds first := by
    intro holds all first mem
    obtain ⟨old, there, rfl⟩ := Option.map_eq_some_iff.mp (head?_map.symm.trans mem)
    exact all old there
  refine ⟨checked.taskId, checked.initialContext, checked.reset, ?_, ?_, ?_, heads fun first head => ?_,
    heads checked.context⟩
  · exact fun none_ => checked.turns (map_eq_nil_iff.mp none_)
  · rw [ids, checked.turnIds]
    exact congrArg (range' 1) (length_map _).symm
  · rw [requests]
    exact checked.requestIds
  · refine forall_mem_map.mpr fun turn mem => ?_
    exact (same_arranged turn.policy first.policy style).trans (checked.policies first head turn mem)

theorem construct_ok
    {groupId taskId reset sampleIndex reward eligible reason evidence sampleId rawReward seed : Json}
    {turns : List TurnTrace} :
    construct runtime groupId taskId initialContext reset sampleIndex turns reward eligible reason evidence sampleId
        rawReward seed = .ok trajectory ↔
      trajectory.Checked runtime ∧
      (groupId = .int trajectory.groupId ∧ sampleIndex = .int trajectory.sampleIndex ∧
        taskId = .str trajectory.taskId ∧ initialContext = .str trajectory.initialContext ∧
        reset = .str trajectory.reset ∧ turns = trajectory.turns) ∧
      (eligible = .bool trajectory.rewardEligible ∧
        optional reward (fun value => finite runtime value "reward must be finite") = .ok trajectory.reward ∧
        optional rawReward (fun value => finite runtime value "raw reward must be finite") = .ok trajectory.rawReward ∧
        exclusion trajectory.rewardEligible reason = .ok trajectory.exclusionReason) ∧
      optional seed (fun value => integer value 0 "sampling_seed must be an integer >= 0")
        = .ok trajectory.samplingSeed ∧
      sampleIdentity runtime sampleId trajectory.groupId trajectory.sampleIndex = .ok trajectory.sampleId ∧
      normalise runtime evidence = .ok trajectory.evidence := by
  constructor
  · intro built
    obtain ⟨groupId_, isGroup, built⟩ := bind_eq_ok.mp built
    obtain ⟨sampleIndex_, isIndex, built⟩ := bind_eq_ok.mp built
    obtain ⟨taskId_, isTask, built⟩ := bind_eq_ok.mp built
    obtain ⟨initialContext_, isContext, built⟩ := bind_eq_ok.mp built
    obtain ⟨reset_, isReset, built⟩ := bind_eq_ok.mp built
    cases turns with
    | nil => cases built
    | cons first rest =>
      obtain ⟨_, ordered, built⟩ := bind_eq_ok.mp built
      obtain ⟨_, unique, built⟩ := bind_eq_ok.mp built
      obtain ⟨_, policies, built⟩ := bind_eq_ok.mp built
      obtain ⟨_, hashed, built⟩ := bind_eq_ok.mp built
      obtain ⟨eligible_, isEligible, built⟩ := bind_eq_ok.mp built
      obtain ⟨reward_, isReward, built⟩ := bind_eq_ok.mp built
      obtain ⟨rawReward_, isRaw, built⟩ := bind_eq_ok.mp built
      obtain ⟨reason_, isReason, built⟩ := bind_eq_ok.mp built
      obtain ⟨seed_, isSeed, built⟩ := bind_eq_ok.mp built
      obtain ⟨sampleId_, isSample, built⟩ := bind_eq_ok.mp built
      obtain ⟨evidence_, isEvidence, built⟩ := bind_eq_ok.mp built
      cases built
      have heads : ∀ {holds : TurnTrace → Prop}, holds first → ∀ other ∈ (first :: rest).head?, holds other :=
        fun here other same => Option.some.inj same ▸ here
      exact ⟨⟨(nonempty_ok.mp isTask).2, (digestText_ok.mp isContext).2, (digestText_ok.mp isReset).2,
          cons_ne_nil _ _, require_eq_ok.mp ordered, require_eq_ok.mp unique, heads (require_eq_ok.mp policies),
          heads (require_eq_ok.mp hashed)⟩,
        ⟨(integer_ok.mp isGroup).1, (integer_ok.mp isIndex).1, (nonempty_ok.mp isTask).1,
          (digestText_ok.mp isContext).1, (digestText_ok.mp isReset).1, rfl⟩,
        ⟨flag_ok.mp isEligible, isReward, isRaw, isReason⟩, isSeed, isSample, isEvidence⟩
  · rintro ⟨checked, ⟨isGroup, isIndex, isTask, isContext, isReset, rfl⟩, ⟨isEligible, isReward, isRaw, isReason⟩,
      isSeed, isSample, isEvidence⟩
    refine ok_bind (integer_ok.mpr ⟨isGroup, Nat.zero_le _⟩) ?_
    refine ok_bind (integer_ok.mpr ⟨isIndex, Nat.zero_le _⟩) ?_
    refine ok_bind (nonempty_ok.mpr ⟨isTask, checked.taskId⟩) ?_
    refine ok_bind (digestText_ok.mpr ⟨isContext, checked.initialContext⟩) ?_
    refine ok_bind (digestText_ok.mpr ⟨isReset, checked.reset⟩) ?_
    obtain ⟨first, rest, shape⟩ := exists_cons_of_ne_nil checked.turns
    have head : first ∈ trajectory.turns.head? := by
      rw [shape]
      rfl
    have policies := checked.policies first head
    have ordered := checked.turnIds
    have unique := checked.requestIds
    rw [shape] at policies ordered unique ⊢
    refine ok_bind (require_ok ordered) (ok_bind (require_ok unique) ?_)
    refine ok_bind (require_ok policies) ?_
    refine ok_bind (require_ok (checked.context first head)) ?_
    refine ok_bind (flag_ok.mpr isEligible) (ok_bind isReward (ok_bind isRaw ?_))
    refine ok_bind isReason (ok_bind isSeed (ok_bind isSample ?_))
    refine ok_bind isEvidence ?_
    rw [← shape]
    rfl

/-- **A trajectory is built again of its dictionary**, in any order of keys. -/
theorem fromDict_arranged (valid : trajectory.Valid runtime) (style : Style) :
    TrainingTrajectory.fromDict runtime (trajectory.toDict.arranged style) = .ok (trajectory.arranged style) := by
  have distinct := toDict_distinct valid
  refine ok_bind (fields_ok.mpr ((hasKeys_arranged _ _).trans (toDict_complete trajectory))) ?_
  simp only [field_arranged distinct]
  have turns : (field trajectory.toDict "turns").arranged style
      = .list (trajectory.turns.map fun turn => turn.toDict.arranged style) := by
    simp [toDict, Json.arranged, arrangedItems_map]
  have evidence : (field trajectory.toDict "evidence").arranged style
      = .object (trajectory.arranged style).evidence := by
    simp [toDict, arranged, Json.arranged]
  have built : (trajectory.turns.map fun turn => turn.toDict.arranged style).mapM (TurnTrace.fromDict runtime)
      = .ok (trajectory.arranged style).turns := by
    refine mapM_eq_ok.mpr (forall₂_map_left_iff.mpr (forall₂_map_right_iff.mpr ?_))
    exact forall₂_same.mpr fun turn mem => TurnTrace.fromDict_arranged (valid.each turn mem) style
  rw [turns, evidence]
  refine ok_bind rfl (ok_bind built (construct_ok.mpr ?_))
  refine ⟨valid.toChecked.arranged style, ⟨?_, ?_, ?_, ?_, ?_, rfl⟩, ⟨?_, ?_, ?_, ?_⟩, ?_, ?_, ?_⟩
  · simp [toDict, arranged, Json.arranged]
  · simp [toDict, arranged, Json.arranged]
  · simp [toDict, arranged, Json.arranged]
  · simp [toDict, arranged, Json.arranged]
  · simp [toDict, arranged, Json.arranged]
  · simp [toDict, arranged, Json.arranged]
  · have reward : (field trajectory.toDict "reward").arranged style = optionJson json trajectory.reward := by
      simp only [toDict, field_object_cons, String.reduceEq, if_true, if_false]
      exact optionJson_arranged fun _ => rfl
    rw [reward]
    exact optional_written fun number _ => ⟨Json.noConfusion, finite_ok.mpr (Or.inl rfl)⟩
  · have rawReward : (field trajectory.toDict "raw_reward").arranged style
        = optionJson json trajectory.rawReward := by
      simp only [toDict, field_object_cons, String.reduceEq, if_true, if_false]
      exact optionJson_arranged fun _ => rfl
    rw [rawReward]
    exact optional_written fun number _ => ⟨Json.noConfusion, finite_ok.mpr (Or.inl rfl)⟩
  · have reason : (field trajectory.toDict "exclusion_reason").arranged style
        = optionJson str trajectory.exclusionReason := by
      simp only [toDict, field_object_cons, String.reduceEq, if_true, if_false]
      exact optionJson_arranged fun _ => rfl
    rw [reason]
    exact valid.exclusion
  · have seed : (field trajectory.toDict "sampling_seed").arranged style
        = optionJson (fun seed : ℕ => .int seed) trajectory.samplingSeed := by
      simp only [toDict, field_object_cons, String.reduceEq, if_true, if_false]
      exact optionJson_arranged fun _ => rfl
    rw [seed]
    exact optional_written fun number _ => ⟨Json.noConfusion, integer_ok.mpr ⟨rfl, Nat.zero_le _⟩⟩
  · have sampleId : (field trajectory.toDict "sample_id").arranged style = .str trajectory.sampleId := by
      simp [toDict, Json.arranged]
    rw [sampleId]
    exact nonempty_ok.mpr ⟨rfl, valid.sampleId⟩
  · exact normalise_object (arranged_readable style valid.evidence.1) (arranged_distinct style valid.evidence.2)

/-- What is built of a loaded value is valid, and may be written. -/
theorem fromDict_loaded (loaded : Loaded runtime value)
    (built : TrainingTrajectory.fromDict runtime value = .ok trajectory) :
    trajectory.Valid runtime ∧ trajectory.toDict.Readable runtime.numbers.strict := by
  obtain ⟨_, -, built⟩ := bind_eq_ok.mp built
  obtain ⟨items, iterated, built⟩ := bind_eq_ok.mp built
  obtain ⟨turns, each, built⟩ := bind_eq_ok.mp built
  obtain ⟨checked, ⟨groupId, sampleIndex, taskId, initialContext, reset, rfl⟩, ⟨eligible, reward, rawReward, reason⟩,
    seed, sampleId, evidence⟩ := construct_ok.mp built
  have both : ∀ turn ∈ trajectory.turns, turn.Valid ∧ turn.toDict.Readable runtime.numbers.strict := by
    intro turn mem
    obtain ⟨item, there, found⟩ := forall₂_right (mapM_eq_ok.mp each) mem
    exact TurnTrace.fromDict_loaded ((loaded.field "turns").iterate iterated item there) found
  have normal := normalise_loaded (loaded.field "evidence") evidence
  obtain ⟨some_, plain⟩ := sampleIdentity_ok sampleId
  have numbers : ∀ {read : Option Finite} {value : Json} {message : String}, Loaded runtime value →
      optional value (fun value => finite runtime value message) = .ok read →
      (optionJson json read).Readable runtime.numbers.strict := by
    intro read value message loaded found
    refine optionJson_readable fun inner same => ?_
    rcases optional_ok.mp found with ⟨-, none_⟩ | ⟨-, other, found, same'⟩
    · cases same.symm.trans none_
    · cases same.symm.trans same'
      exact loaded.finite found
  refine ⟨⟨checked, fun turn mem => (both turn mem).1, exclusion_again reason, some_, normal⟩, ?_⟩
  have names : ∀ name ∈ writtenFields, Plain (text name) := by decide
  refine literal_readable names (forall_iff_forall_mem.mp ?_)
  refine ⟨(groupId ▸ (loaded.field "group_id")).strict rfl, (taskId ▸ (loaded.field "task_id")).strict rfl,
    (initialContext ▸ (loaded.field "initial_context_sha256")).strict rfl,
    (reset ▸ (loaded.field "reset_sha256")).strict rfl, (sampleIndex ▸ (loaded.field "sample_index")).strict rfl,
    plain (loaded.field "sample_id"), readableItems_iff.mpr (forall_mem_map.mpr fun turn mem => (both turn mem).2),
    numbers (loaded.field "reward") reward, trivial, optionJson_readable fun inner same => ?_, normal.1,
    numbers (loaded.field "raw_reward") rawReward, optionJson_readable fun inner same => ?_⟩
  · rcases exclusion_ok.mp reason with ⟨-, -, none_⟩ | ⟨-, found, isText, -, same'⟩
    · cases same.symm.trans none_
    · cases same.symm.trans same'
      exact (isText ▸ (loaded.field "exclusion_reason")).strict rfl
  · rcases optional_ok.mp seed with ⟨-, none_⟩ | ⟨-, other, found, same'⟩
    · cases same.symm.trans none_
    · cases same.symm.trans same'
      exact ((integer_ok.mp found).1 ▸ (loaded.field "sampling_seed")).strict rfl

theorem toDict_arranged (trajectory : TrainingTrajectory) (style : Style) :
    (trajectory.arranged style).toDict.arranged style = trajectory.toDict.arranged style := by
  refine arranged_literal ?_
  have turns : (list ((trajectory.arranged style).turns.map TurnTrace.toDict)).arranged style
      = (list (trajectory.turns.map TurnTrace.toDict)).arranged style := by
    rw [Json.arranged, arrangedItems_map, Json.arranged, arrangedItems_map, map_map, map_map]
    refine congrArg list ((map_map ..).trans (map_congr_left fun turn _ => ?_))
    exact TurnTrace.toDict_arranged turn style
  have evidence : (Json.object (trajectory.arranged style).evidence).arranged style
      = (Json.object trajectory.evidence).arranged style := arranged_arranged style (.object trajectory.evidence)
  simp only [map_cons, map_nil, turns, evidence]
  rfl

theorem arranged_unsorted (unsorted : style.sorted = false) (trajectory : TrainingTrajectory) :
    trajectory.arranged style = trajectory := by
  have evidence : style.order (arrangedEntries style trajectory.evidence) = trajectory.evidence :=
    Json.object.inj (Lib.arranged_unsorted unsorted (.object trajectory.evidence))
  have turns : trajectory.turns.map (TurnTrace.arranged style) = trajectory.turns :=
    (map_congr_left fun turn _ => TurnTrace.arranged_unsorted unsorted turn).trans (map_id' _)
  unfold arranged
  rw [evidence, turns]

end TrainingTrajectory

/-! ### Groups -/

namespace TrainingGroup

/-- What a group checks of its samples. -/
structure Checked (group : TrainingGroup) : Prop where
  size : 2 ≤ group.expectedSize
  complete : group.samples.length = group.expectedSize
  indices : group.samples.map sampleIndex = range group.expectedSize
  sampleIds : (group.samples.map sampleId).Nodup
  requestIds : ((group.samples.flatMap turns).map requestId).Nodup
  belong : ∀ sample ∈ group.samples, belongs group.groupId (.str group.taskId) (.str group.initialContext)
    (.str group.reset) group.policy sample = true
  eligible : ∀ sample ∈ group.samples, sample.rewardEligible = true ∧ sample.reward ≠ none

/-- What holds of a group that is built. -/
structure Valid (runtime : Runtime) (group : TrainingGroup) : Prop extends Checked group where
  policy : group.policy.Valid
  each : ∀ sample ∈ group.samples, sample.Valid runtime

def arranged (style : Style) (group : TrainingGroup) : TrainingGroup :=
  { group with
    policy := group.policy.arranged style
    samples := group.samples.map (TrainingTrajectory.arranged style) }

variable (samples : List TrainingTrajectory)

def inOrder (samples : List TrainingTrajectory) : List TrainingTrajectory :=
  samples.insertionSort fun first second => first.sampleIndex ≤ second.sampleIndex

theorem inOrder_perm : (inOrder samples).Perm samples :=
  perm_insertionSort _ samples

variable {samples : List TrainingTrajectory}

theorem inOrder_indices {size : ℕ}
    (indices : (samples.map sampleIndex).Perm (range size)) :
    (inOrder samples).map sampleIndex = range size := by
  have sorted : (inOrder samples).Pairwise fun first second => first.sampleIndex ≤ second.sampleIndex :=
    pairwise_insertionSort _ samples
  have same := ((inOrder_perm samples).map sampleIndex).trans indices
  exact same.eq_of_pairwise (fun _ _ _ _ low high => Nat.le_antisymm low high) (pairwise_map.mpr sorted)
    pairwise_le_range

variable {group : TrainingGroup}

theorem inOrder_samples (checked : group.Checked) : inOrder group.samples = group.samples := by
  refine List.Pairwise.insertionSort_eq (pairwise_map.mp ?_)
  rw [checked.indices]
  exact pairwise_le_range

theorem construct_ok {groupId taskId reset size : Json} {policy : PolicyRef}
    (built : construct groupId taskId initialContext reset policy size samples = .ok group) :
    group.Checked ∧ groupId = .int group.groupId ∧ taskId = .str group.taskId ∧
      initialContext = .str group.initialContext ∧ reset = .str group.reset ∧ policy = group.policy ∧
      size = .int group.expectedSize ∧ group.samples = inOrder samples := by
  obtain ⟨groupId_, isGroup, built⟩ := bind_eq_ok.mp built
  obtain ⟨size_, isSize, built⟩ := bind_eq_ok.mp built
  obtain ⟨_, complete, built⟩ := bind_eq_ok.mp built
  obtain ⟨_, unique, built⟩ := bind_eq_ok.mp built
  obtain ⟨_, requests, built⟩ := bind_eq_ok.mp built
  obtain ⟨units, each, built⟩ := bind_eq_ok.mp built
  obtain ⟨whole, least⟩ := integer_ok.mp isSize
  have complete := require_eq_ok.mp complete
  obtain ⟨indices, sampleIds⟩ := require_eq_ok.mp unique
  have requests := require_eq_ok.mp requests
  have perm := inOrder_perm samples
  have all : ∀ sample ∈ samples, belongs groupId_ taskId initialContext reset policy sample = true ∧
      sample.rewardEligible = true ∧ sample.reward ≠ none := by
    intro sample mem
    obtain ⟨_, belong, eligible⟩ := bind_eq_ok.mp (mapM_unit_ok.mp ⟨units, each⟩ sample mem)
    exact ⟨require_eq_ok.mp belong, require_eq_ok.mp eligible⟩
  split at built
  · cases built
    refine ⟨⟨least, perm.length_eq.trans complete, inOrder_indices indices, ?_, ?_, ?_, ?_⟩, (integer_ok.mp isGroup).1,
      rfl, rfl, rfl, rfl, whole, rfl⟩
    · exact (perm.map _).nodup_iff.mpr sampleIds
    · exact ((perm.flatMap_right _).map _).nodup_iff.mpr requests
    · exact fun sample mem => (all sample (perm.mem_iff.mp mem)).1
    · exact fun sample mem => (all sample (perm.mem_iff.mp mem)).2
  · cases built

theorem construct_again (checked : group.Checked) :
    construct (.int group.groupId) (.str group.taskId) (.str group.initialContext) (.str group.reset) group.policy
      (.int group.expectedSize) group.samples = .ok group := by
  have indices : (group.samples.map sampleIndex).Perm (range group.expectedSize) :=
    checked.indices ▸ refl _
  have each : ∀ sample ∈ group.samples, (do
      let _ ← require (belongs group.groupId (.str group.taskId) (.str group.initialContext) (.str group.reset)
          group.policy sample = true)
        (Failure.value "training group requires the same task, initial context, reset and policy")
      require (sample.rewardEligible = true ∧ sample.reward ≠ none)
        (Failure.value "training requires G eligible finite rewards; missing is not zero")) = .ok () := fun sample mem =>
    ok_bind (require_ok (checked.belong sample mem))
      (require_eq_ok.mpr (checked.eligible sample mem))
  obtain ⟨units, ran⟩ := mapM_unit_ok.mpr each
  refine ok_bind (integer_ok.mpr ⟨rfl, Nat.zero_le _⟩) (ok_bind (integer_ok.mpr ⟨rfl, checked.size⟩) ?_)
  refine ok_bind (require_ok checked.complete) ?_
  refine ok_bind (require_ok ⟨indices, checked.sampleIds⟩) ?_
  refine ok_bind (require_ok checked.requestIds) (ok_bind ran ?_)
  have sorted : (group.samples.insertionSort fun first second => first.sampleIndex ≤ second.sampleIndex)
      = group.samples := inOrder_samples checked
  rw [sorted]
  rfl

theorem toDict_distinct (valid : group.Valid runtime) : group.toDict.distinct = true := by
  have keys : groupFields.Nodup := by decide
  refine distinct_literal keys ?_
  have samples : ∀ item ∈ group.samples.map TrainingTrajectory.toDict, item.distinct = true :=
    forall_mem_map.mpr fun sample mem => TrainingTrajectory.toDict_distinct (valid.each sample mem)
  exact ⟨rfl, rfl, rfl, rfl, PolicyRef.toDict_distinct valid.policy, rfl, distinctItems_iff.mpr samples⟩

theorem toDict_finite (valid : group.Valid runtime) : group.toDict.finite = true := by
  refine literal_finite ?_
  exact ⟨rfl, rfl, rfl, rfl, PolicyRef.toDict_finite _, rfl, finiteItems_iff.mpr (forall_mem_map.mpr
    fun sample mem => TrainingTrajectory.toDict_finite (valid.each sample mem))⟩

theorem Checked.arranged (checked : group.Checked) (style : Style) : (group.arranged style).Checked := by
  have turns : ((group.arranged style).samples.flatMap turns).map requestId
      = (group.samples.flatMap turns).map requestId := by
    show ((group.samples.map _).flatMap _).map _ = _
    rw [flatMap_map, map_flatMap, map_flatMap]
    exact flatMap_congr fun sample _ => map_map
  refine ⟨checked.size, ?_, ?_, ?_, ?_, forall_mem_map.mpr fun sample mem => ?_,
    forall_mem_map.mpr checked.eligible⟩
  · exact (length_map _).trans checked.complete
  · exact map_map.trans checked.indices
  · have same : (group.arranged style).samples.map sampleId
        = group.samples.map sampleId := map_map
    exact same ▸ checked.sampleIds
  · rw [turns]
    exact checked.requestIds
  · have policy : ((sample.arranged style).policy.any fun own => own.same (group.arranged style).policy)
        = sample.policy.any fun own => own.same group.policy := by
      unfold TrainingTrajectory.policy
      show ((sample.turns.map (TurnTrace.arranged style)).head?.map TurnTrace.policy).any _ = _
      rw [head?_map]
      cases sample.turns.head? with
      | none => rfl
      | some turn => exact same_arranged turn.policy group.policy style
    rw [← checked.belong sample mem]
    unfold belongs
    rw [policy]
    rfl

/-- **A group is built again of its dictionary**, in any order of keys. -/
theorem fromDict_arranged (valid : group.Valid runtime) (style : Style) :
    fromDict runtime (group.toDict.arranged style) = .ok (group.arranged style) := by
  have distinct := toDict_distinct valid
  have complete : group.toDict.hasKeys groupFields = true := hasKeys_object (refl groupFields)
  refine ok_bind (fields_ok.mpr ((hasKeys_arranged _ _).trans complete)) ?_
  simp only [field_arranged distinct]
  have policy : field group.toDict "policy" = group.policy.toDict := by simp [toDict]
  have samples : (field group.toDict "samples").arranged style
      = .list (group.samples.map fun sample => sample.toDict.arranged style) := by
    simp [toDict, Json.arranged, arrangedItems_map]
  have built : (group.samples.map fun sample => sample.toDict.arranged style).mapM (TrainingTrajectory.fromDict runtime)
      = .ok (group.arranged style).samples := by
    refine mapM_eq_ok.mpr (forall₂_map_left_iff.mpr (forall₂_map_right_iff.mpr ?_))
    exact forall₂_same.mpr fun sample mem => TrainingTrajectory.fromDict_arranged (valid.each sample mem) style
  rw [policy, samples]
  refine ok_bind (PolicyRef.fromDict_arranged valid.policy style) ?_
  refine ok_bind rfl (ok_bind built ?_)
  have again := construct_again (valid.toChecked.arranged style)
  simpa [toDict, arranged, Json.arranged] using again

theorem fromDict_loaded (loaded : Loaded runtime value)
    (built : fromDict runtime value = .ok group) :
    group.Valid runtime ∧ group.toDict.Readable runtime.numbers.strict := by
  obtain ⟨_, -, built⟩ := bind_eq_ok.mp built
  obtain ⟨policy, isPolicy, built⟩ := bind_eq_ok.mp built
  obtain ⟨items, iterated, built⟩ := bind_eq_ok.mp built
  obtain ⟨samples, each, built⟩ := bind_eq_ok.mp built
  obtain ⟨checked, groupId, taskId, initialContext, reset, rfl, size, sorted⟩ := construct_ok built
  obtain ⟨policy_, written⟩ := PolicyRef.fromDict_loaded (loaded.field "policy") isPolicy
  have both : ∀ sample ∈ group.samples, sample.Valid runtime ∧ sample.toDict.Readable runtime.numbers.strict := by
    intro sample mem
    rw [sorted] at mem
    obtain ⟨item, there, found⟩ := forall₂_right (mapM_eq_ok.mp each) ((inOrder_perm samples).mem_iff.mp mem)
    exact TrainingTrajectory.fromDict_loaded ((loaded.field "samples").iterate iterated item there) found
  refine ⟨⟨checked, policy_, fun sample mem => (both sample mem).1⟩, ?_⟩
  have names : ∀ name ∈ groupFields, Plain (text name) := by decide
  refine literal_readable names (forall_iff_forall_mem.mp ?_)
  exact ⟨(groupId ▸ (loaded.field "group_id")).strict rfl, (taskId ▸ (loaded.field "task_id")).strict rfl,
    (initialContext ▸ (loaded.field "initial_context_sha256")).strict rfl,
    (reset ▸ (loaded.field "reset_sha256")).strict rfl, written, (size ▸ (loaded.field "expected_size")).strict rfl,
    readableItems_iff.mpr (forall_mem_map.mpr fun sample mem => (both sample mem).2)⟩

theorem toDict_arranged (group : TrainingGroup) (style : Style) :
    (group.arranged style).toDict.arranged style = group.toDict.arranged style := by
  refine arranged_literal ?_
  have samples : (list ((group.arranged style).samples.map TrainingTrajectory.toDict)).arranged style
      = (list (group.samples.map TrainingTrajectory.toDict)).arranged style := by
    rw [Json.arranged, arrangedItems_map, Json.arranged, arrangedItems_map, map_map, map_map]
    refine congrArg list ((map_map ..).trans (map_congr_left fun sample _ => ?_))
    exact TrainingTrajectory.toDict_arranged sample style
  have policy : (group.arranged style).policy.toDict.arranged style = group.policy.toDict.arranged style :=
    PolicyRef.toDict_arranged group.policy style
  simp only [map_cons, map_nil, samples, policy]
  rfl

theorem arranged_unsorted (unsorted : style.sorted = false) (group : TrainingGroup) :
    group.arranged style = group := by
  have samples : group.samples.map (TrainingTrajectory.arranged style) = group.samples :=
    (map_congr_left fun sample _ => TrainingTrajectory.arranged_unsorted unsorted sample).trans (map_id' _)
  unfold arranged
  rw [PolicyRef.arranged_unsorted unsorted, samples]

end TrainingGroup

end TinyDSV41.Records
