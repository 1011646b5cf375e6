/-
**Evidence with an integer that no float can hold.**

`math.isfinite` raises an `OverflowError` on an integer beyond the largest float, and the clauses of
`GroupAssembler.complete` catch a `TypeError`, a `ValueError` and a `KeyError` only. Such an integer reaches
it as the reward of a Terminal verifier, as the temperature of a policy, or as a log probability.

* `Overflows` — the integer is reached: every check before it passes.
* `sampleOf_overflow` — the sample of an episode raises an `OverflowError` on just this evidence.
* `complete_overflow` — the last result of such a group raises, and leaves its group as it is.
* `overflowing_evidence` — the last result closes its group if and only if no episode of the group overflows.
-/

import TinyDSV41.Records.GroupAssembly

namespace TinyDSV41.Records

open List Lib
open Coordinator (EpisodeIdentity EpisodePlan)

section Evidence

variable (runtime : Runtime)

/-! ### The evidence -/

def Huge (value : Json) : Prop := ∃ whole, value = .int whole ∧ runtime.ofInt whole = none

/-- The policy of a turn is read up to a huge temperature. -/
structure PolicyOverflows (value : Json) : Prop where
  keys : value.hasKeys policyFields = true
  version : Accepts (integer (field value "version") 0 "policy version must be an integer >= 0")
  digest : Accepts (digestText (field value "digest") "policy digest must be a lowercase SHA256 digest")
  lineage : Accepts (nonempty (field value "lineage") "policy requires run lineage")
  identities : ∃ pairs entries, dictOf (field value "identities") = .ok pairs ∧
    (keyed pairs).bind namedTexts = some entries
  sampling : ∃ pairs entries, dictOf (field value "sampling") = .ok pairs ∧ keyed pairs = some entries ∧
    (Json.object entries).hasKeys samplingFields = true ∧ Huge runtime (field (.object entries) "temperature")

/-- A turn is read up to a huge temperature or log probability. -/
def TurnOverflows (value : Json) : Prop :=
  value.hasKeys turnFields = true ∧ (PolicyOverflows runtime (field value "policy") ∨
      Accepts (PolicyRef.fromDict runtime (field value "policy")) ∧
      Accepts (integer (field value "turn_id") 1 "turn_id must be an integer >= 1") ∧
      Accepts (nonempty (field value "request_id") "turn requires a request identity") ∧
      Accepts (tokens (field value "context_token_ids") "context_token_ids") ∧
      Accepts (tokens (field value "action_token_ids") "action_token_ids") ∧
      ∃ items, iterate (field value "behavior_log_probs") = .ok items ∧
        FailsAt (fun item => Accepts (finite runtime item "behavior log probability must be finite"))
          (Huge runtime) items)

/-- The reward of a Terminal verifier is huge. -/
def RewardOverflows (policy : RewardPolicy) (result : EpisodeResult) : Prop :=
  (result.identity.benchmark = policy.benchmark ∧ result.executionState = "completed" ∧
    result.scoreEligible = true ∧ result.failureCategory = none) ∧
  ((result.cleanupState = "verified" ∨ result.cleanupState = "not_required") ∧
    uncertain result.requestState = false) ∧
  hasRequests result.requestState = true ∧
  truthy (field result.outcome "training_evidence_error") = false ∧
  policy.mapping = .terminalValidatedVerifier ∧
  (result.verificationState = "evaluated" ∧
    isText (field result.outcome "review_classification") (text "evaluated") = true) ∧
  Huge runtime (field result.outcome "validated_reported_reward")

/-- The evidence of an episode is read up to a huge reward, temperature or log probability. -/
def Overflows (registration : GroupRegistration) (plan : EpisodePlan) (episode : EpisodeResult) : Prop :=
  episode.sourceSha256 = some plan.task.sourceSha256 ∧
    (RewardOverflows runtime registration.rewardPolicy episode ∨
      Accepts (registration.rewardPolicy.reward runtime episode) ∧
      ∃ items, field episode.outcome "training_turns" = .list items ∧
        FailsAt (fun item => Accepts (TurnTrace.fromDict runtime item)) (TurnOverflows runtime) items)

end Evidence

/-! ### What overflows -/

variable {runtime : Runtime}

/-- An `OverflowError` is not caught. -/
theorem not_caught : ¬ Caught Failure.overflow := fun caught => caught rfl

/-- A check that raises no `OverflowError`. -/
theorem no_overflow {Value : Type} {result : Checked Value} (raises : Raises Caught result) :
    result ≠ .error .overflow := fun same => not_caught (raises _ same)

variable {value : Json}

theorem finite_overflow {message : String} :
    finite runtime value message = .error .overflow ↔ Huge runtime value := by
  unfold finite Huge
  cases value with
  | int whole =>
    dsimp only
    cases converted : runtime.ofInt whole with
    | none => exact ⟨fun _ => ⟨whole, rfl, converted⟩, fun _ => rfl⟩
    | some number =>
      constructor
      · intro same
        cases same
      · rintro ⟨_, same, none_⟩
        cases same
        rw [none_] at converted
        cases converted
  | _ =>
    constructor
    · intro same
      cases same
    · rintro ⟨_, same, -⟩
      cases same

section Reading

variable {First Second : Type} {result : Checked First} {next : First → Checked Second}

theorem bind_overflow (raises : Raises Caught result) :
    (result >>= next) = .error .overflow ↔ ∃ inner, result = .ok inner ∧ next inner = .error .overflow :=
  raises.later_error not_caught

theorem require_overflow {condition : Prop} [Decidable condition] {message : String} {next : Unit → Checked Second} :
    (require condition (.value message) >>= next) = .error .overflow ↔ condition ∧ next () = .error .overflow := by
  refine (bind_overflow require_raises).trans ⟨?_, ?_⟩
  · rintro ⟨_, holds, raised⟩
    exact ⟨require_eq_ok.mp holds, raised⟩
  · rintro ⟨holds, raised⟩
    exact ⟨(), require_eq_ok.mpr holds, raised⟩

theorem policy_overflow :
    PolicyRef.fromDict runtime value = .error .overflow ↔ PolicyOverflows runtime value := by
  constructor
  · intro raised
    obtain ⟨keys, raised⟩ := require_overflow.mp raised
    obtain ⟨_, version, raised⟩ := (bind_overflow (integer_raises (caught_value _))).mp raised
    obtain ⟨_, digest, raised⟩ := (bind_overflow digestText_raises).mp raised
    obtain ⟨_, lineage, raised⟩ := (bind_overflow nonempty_raises).mp raised
    obtain ⟨pairs, identities, raised⟩ := (bind_overflow dictOf_raises).mp raised
    cases named : (keyed pairs).bind namedTexts with
    | none =>
      rw [named] at raised
      cases raised
    | some entries =>
      rw [named] at raised
      obtain ⟨settings, sampling, raised⟩ := (bind_overflow dictOf_raises).mp raised
      cases texts : keyed settings with
      | none =>
        rw [texts] at raised
        cases raised
      | some options =>
        rw [texts] at raised
        obtain ⟨fields_, raised⟩ := require_overflow.mp raised
        rcases bind_eq_error.mp raised with huge | ⟨_, -, raised⟩
        · exact ⟨keys, ⟨_, version⟩, ⟨_, digest⟩, ⟨_, lineage⟩, ⟨pairs, entries, identities, named⟩,
            settings, options, sampling, texts, fields_, finite_overflow.mp huge⟩
        · obtain ⟨-, raised⟩ := require_overflow.mp raised
          cases raised
  · rintro ⟨keys, ⟨_, version⟩, ⟨_, digest⟩, ⟨_, lineage⟩, ⟨pairs, entries, identities, named⟩,
      settings, options, sampling, texts, fields_, huge⟩
    refine require_overflow.mpr ⟨keys, ?_⟩
    refine (bind_overflow (integer_raises (caught_value _))).mpr ⟨_, version, ?_⟩
    refine (bind_overflow digestText_raises).mpr ⟨_, digest, (bind_overflow nonempty_raises).mpr ⟨_, lineage, ?_⟩⟩
    refine (bind_overflow dictOf_raises).mpr ⟨pairs, identities, ?_⟩
    rw [named]
    refine (bind_overflow dictOf_raises).mpr ⟨settings, sampling, ?_⟩
    rw [texts]
    refine require_overflow.mpr ⟨fields_, ?_⟩
    exact bind_eq_error.mpr (Or.inl (finite_overflow.mpr huge))

theorem turn_overflow :
    TurnTrace.fromDict runtime value = .error .overflow ↔ TurnOverflows runtime value := by
  constructor
  · intro raised
    obtain ⟨keys, raised⟩ := require_overflow.mp raised
    refine ⟨keys, ?_⟩
    rcases bind_eq_error.mp raised with raised | ⟨policy, accepted, raised⟩
    · exact Or.inl (policy_overflow.mp raised)
    obtain ⟨_, turnId, raised⟩ := (bind_overflow (integer_raises (caught_value _))).mp raised
    obtain ⟨_, requestId, raised⟩ := (bind_overflow nonempty_raises).mp raised
    obtain ⟨_, context, raised⟩ := (bind_overflow tokens_raises).mp raised
    obtain ⟨_, actions, raised⟩ := (bind_overflow tokens_raises).mp raised
    obtain ⟨items, iterated, raised⟩ := (bind_overflow iterate_raises).mp raised
    rcases bind_eq_error.mp raised with raised | ⟨_, -, raised⟩
    · have fails := mapM_eq_error.mp raised
      simp only [finite_overflow] at fails
      exact Or.inr ⟨⟨policy, accepted⟩, ⟨_, turnId⟩, ⟨_, requestId⟩, ⟨_, context⟩, ⟨_, actions⟩, items, iterated, fails⟩
    · -- Nothing behind the log probabilities is a float.
      refine absurd raised (no_overflow ?_)
      refine .bind require_raises fun _ _ => .bind finishReasonOf_raises fun _ _ => ?_
      refine .bind (integer_raises (caught_value _)) fun _ _ => .bind require_raises fun _ _ => ?_
      exact .bind nonempty_raises fun _ _ => .ok _
  · rintro ⟨keys, policy | ⟨⟨policy, accepted⟩, ⟨_, turnId⟩, ⟨_, requestId⟩, ⟨_, context⟩, ⟨_, actions⟩, items,
      iterated, fails⟩⟩
    all_goals refine require_overflow.mpr ⟨keys, ?_⟩
    · exact bind_eq_error.mpr (Or.inl (policy_overflow.mpr policy))
    · refine bind_eq_error.mpr (Or.inr ⟨policy, accepted, ?_⟩)
      refine (bind_overflow (integer_raises (caught_value _))).mpr ⟨_, turnId, ?_⟩
      refine (bind_overflow nonempty_raises).mpr ⟨_, requestId, (bind_overflow tokens_raises).mpr ⟨_, context, ?_⟩⟩
      refine (bind_overflow tokens_raises).mpr ⟨_, actions, (bind_overflow iterate_raises).mpr ⟨items, iterated, ?_⟩⟩
      refine bind_eq_error.mpr (Or.inl (mapM_eq_error.mpr ?_))
      simp only [finite_overflow]
      exact fails

theorem reward_overflow {policy : RewardPolicy} {result : EpisodeResult} :
    policy.reward runtime result = .error .overflow ↔ RewardOverflows runtime policy result := by
  constructor
  · intro raised
    obtain ⟨eligible, raised⟩ := require_overflow.mp raised
    obtain ⟨proven, raised⟩ := require_overflow.mp raised
    obtain ⟨recorded, raised⟩ := require_overflow.mp raised
    obtain ⟨accepted, raised⟩ := require_overflow.mp raised
    refine ⟨eligible, proven, recorded, accepted, ?_⟩
    cases mapping : policy.mapping with
    | nativeFinalCorrectness =>
      rw [mapping] at raised
      dsimp only at raised
      split at raised
      · obtain ⟨-, raised⟩ := require_overflow.mp raised
        cases raised
      · cases raised
    | terminalValidatedVerifier =>
      rw [mapping] at raised
      obtain ⟨evaluated, raised⟩ := require_overflow.mp raised
      exact ⟨rfl, evaluated, finite_overflow.mp raised⟩
  · rintro ⟨eligible, proven, recorded, accepted, mapping, evaluated, huge⟩
    refine require_overflow.mpr ⟨eligible, ?_⟩
    refine require_overflow.mpr ⟨proven, ?_⟩
    refine require_overflow.mpr ⟨recorded, ?_⟩
    refine require_overflow.mpr ⟨accepted, ?_⟩
    rw [mapping]
    refine require_overflow.mpr ⟨evaluated, ?_⟩
    exact finite_overflow.mpr huge

/-- **A sample overflows** on just this evidence. -/
theorem sampleOf_overflow {registration : GroupRegistration} {plan : EpisodePlan} {episode : EpisodeResult} :
    sampleOf runtime registration plan episode = .error .overflow ↔ Overflows runtime registration plan episode := by
  constructor
  · intro raised
    obtain ⟨source, raised⟩ := require_overflow.mp raised
    refine ⟨source, ?_⟩
    rcases bind_eq_error.mp raised with raised | ⟨reward, rewarded, raised⟩
    · exact Or.inl (reward_overflow.mp raised)
    obtain ⟨items, listed, raised⟩ := (bind_overflow turnItems_raises).mp raised
    rcases bind_eq_error.mp raised with raised | ⟨turns, -, raised⟩
    · have fails := mapM_eq_error.mp raised
      simp only [turn_overflow] at fails
      exact Or.inr ⟨⟨reward, rewarded⟩, items, turnItems_ok listed, fails⟩
    · refine absurd raised (no_overflow ?_)
      refine .bind require_raises fun _ _ => .bind require_raises fun _ _ => ?_
      exact .bind require_raises fun _ _ => .bind sampleIdOf_raises fun _ _ => trajectory_raises
  · rintro ⟨source, reward | ⟨⟨reward, rewarded⟩, items, listed, fails⟩⟩
    all_goals refine require_overflow.mpr ⟨source, ?_⟩
    · exact bind_eq_error.mpr (Or.inl (reward_overflow.mpr reward))
    · refine bind_eq_error.mpr (Or.inr ⟨reward, rewarded, ?_⟩)
      refine (bind_overflow turnItems_raises).mpr ⟨items, ?_, ?_⟩
      · obtain ⟨before, item, after, rfl, -⟩ := fails
        rw [listed]
        cases before <;> rfl
      · refine bind_eq_error.mpr (Or.inl (mapM_eq_error.mpr ?_))
        simp only [turn_overflow]
        exact fails

end Reading

/-! ### The last result of a group -/

section Judging

variable {registration : GroupRegistration} {pairs : List (EpisodePlan × EpisodeResult)}

theorem judge_overflow (some_ : ∃ pair ∈ pairs, sampleOf runtime registration pair.1 pair.2 = .error .overflow) :
    judge runtime registration pairs = .error .overflow := by
  induction pairs with
  | nil =>
    obtain ⟨_, mem, -⟩ := some_
    cases mem
  | cons pair rest known =>
    obtain ⟨bad, mem, raised⟩ := some_
    unfold judge
    rcases mem_cons.mp mem with rfl | later
    · rw [raised]
    · have judged := known ⟨bad, later, raised⟩
      cases sampleOf runtime registration pair.1 pair.2 with
      | ok sample =>
        rw [judged]
        rfl
      | error failure =>
        cases failure with
        | overflow => rfl
        | value | type | key =>
          rw [judged]
          rfl

variable {pair : EpisodePlan × EpisodeResult}

/-- Every sample that cannot be used has its reason. -/
theorem judge_reasons {samples : List TrainingTrajectory} {reasons : List Reason}
    (judged : judge runtime registration pairs = .ok (samples, reasons)) (mem : pair ∈ pairs)
    {failure : Failure} (raised : sampleOf runtime registration pair.1 pair.2 = .error failure) :
    .sample pair.1.identity.sampleIndex failure ∈ reasons := by
  induction pairs generalizing samples reasons with
  | nil => cases mem
  | cons first rest known =>
    unfold judge at judged
    rcases mem_cons.mp mem with rfl | later
    · rw [raised] at judged
      cases failure with
      | overflow => cases judged
      | value | type | key =>
        obtain ⟨inner, -, same⟩ := map_eq_ok.mp judged
        cases same
        exact mem_cons_self
    · cases built : sampleOf runtime registration first.1 first.2 with
      | ok sample =>
        rw [built] at judged
        obtain ⟨⟨_, reasons⟩, inner, same⟩ := map_eq_ok.mp judged
        cases same
        exact known inner later
      | error failure =>
        rw [built] at judged
        cases failure with
        | overflow => cases judged
        | value | type | key =>
          obtain ⟨⟨_, reasons⟩, inner, same⟩ := map_eq_ok.mp judged
          cases same
          exact mem_cons_of_mem _ (known inner later)

theorem receiptOf_reasons {episodes : List EpisodeResult} {receipt : Receipt}
    (made : receiptOf runtime registration episodes = .ok receipt)
    (mem : pair ∈ registration.plans.zip episodes) {failure : Failure}
    (raised : sampleOf runtime registration pair.1 pair.2 = .error failure) :
    ∃ reasons, receipt = .exclusion ⟨registration.groupId, registration.plans.length, reasons, episodes⟩ ∧
      .sample pair.1.identity.sampleIndex failure ∈ reasons := by
  obtain ⟨⟨samples, reasons⟩, judged, made⟩ := bind_eq_ok.mp made
  have reason := judge_reasons judged mem raised
  dsimp only at made
  rw [if_neg (ne_nil_of_mem reason)] at made
  cases made
  exact ⟨reasons, rfl, reason⟩

end Judging

namespace GroupAssembler

variable {assembler : GroupAssembler} {result : EpisodeResult} {groupId : ℕ} {row : Row}

/-- The last result closes its group: the group is gone with its episodes, its receipt is returned, and a
sample that cannot be used excludes the group with the reason. -/
def Closes (runtime : Runtime) (assembler : GroupAssembler) (result : EpisodeResult) (groupId : ℕ) (row : Row) :
    Prop :=
  ∃ episodes receipt, InOrder row.registration (row.results.values ++ [result]) episodes ∧
    Outcome runtime row.registration episodes receipt ∧
    (∀ pair ∈ row.registration.plans.zip episodes, ∀ failure,
      sampleOf runtime row.registration pair.1 pair.2 = .error failure →
        ∃ reasons, receipt = .exclusion ⟨row.registration.groupId, row.registration.plans.length, reasons, episodes⟩ ∧
          .sample pair.1.identity.sampleIndex failure ∈ reasons) ∧
    assembler.complete runtime result = (assembler.released groupId row result, .ok (some receipt))

/-- No call breaks the tables, also where it raises. -/
theorem step_tables (tables : Tables assembler) (call : Call) : Tables (assembler.step runtime call).1 := by
  cases call with
  | register registration =>
    rcases register_cases assembler registration with ⟨failure, refused⟩ | ⟨new, fewer, room, free, accepted⟩
    · simp only [step, refused]
      exact tables
    · simp only [step, accepted]
      exact entered_tables tables new fewer room free
  | complete result =>
    have state : (assembler.step runtime (.complete result)).1 = (assembler.complete runtime result).1 := by
      simp only [step]
      split <;> rename_i same <;> rw [same]
    rw [state]
    unfold complete
    cases entered : assembler.episodes.get? result.identity with
    | none => exact tables
    | some groupId =>
      obtain ⟨row, found, mem⟩ := (tables.members result.identity groupId).mp entered
      have kept := kept_tables tables found mem
      have released : Tables (assembler.released groupId row result) := released_tables tables found
      dsimp only
      rw [found]
      dsimp only
      split_ifs
      · exact tables
      · exact kept
      · split
        · exact kept
        · split
          · exact kept
          · exact released

theorem after_tables (tables : Tables assembler) (calls : List Call) :
    Tables (assembler.after runtime calls) := by
  induction calls generalizing assembler with
  | nil => exact tables
  | cons call rest known => exact known (step_tables tables call)

def RowOverflows (runtime : Runtime) (row : Row) (result : EpisodeResult) : Prop :=
  ∃ plan ∈ row.registration.plans, ∃ episode,
    (join row result).results.get? plan.identity = some episode ∧ Overflows runtime row.registration plan episode

section

variable (tables : Tables assembler) (last : Last assembler result groupId row)
include tables last

theorem complete_overflow (overflows : RowOverflows runtime row result) :
    assembler.complete runtime result = (assembler.kept groupId row result, .error .overflow) := by
  obtain ⟨episodes, -, count, each, judged⟩ := complete_last tables last
  obtain ⟨plan, mem, episode, found, overflows⟩ := overflows
  have raised : receiptOf runtime row.registration episodes = .error .overflow := by
    have first : plan ∈ (row.registration.plans.zip episodes).map Prod.fst := by
      rw [map_fst_zip count.ge]
      exact mem
    obtain ⟨⟨_, other⟩, paired, rfl⟩ := mem_map.mp first
    have same : other = episode := Option.some.inj ((each _ paired).symm.trans found)
    subst same
    have bad := judge_overflow ⟨_, paired, sampleOf_overflow.mpr overflows⟩
    unfold receiptOf
    rw [bad]
    rfl
  rw [judged, raised]

theorem complete_closes (sound : ¬ RowOverflows runtime row result) :
    Closes runtime assembler result groupId row := by
  obtain ⟨episodes, ordered, count, each, judged⟩ := complete_last tables last
  obtain ⟨receipt, made, outcome⟩ := receiptOf_outcome count fun pair there failure raised => by
    rintro rfl
    exact sound ⟨pair.1, (of_mem_zip there).1, pair.2, each pair there, sampleOf_overflow.mp raised⟩
  refine ⟨episodes, receipt, ordered, outcome, fun pair there failure raised => ?_, ?_⟩
  · exact receiptOf_reasons made there raised
  · rw [judged, made]

end

/-- **The last result closes its group** if and only if no episode of the group overflows. -/
theorem overflowing_evidence (runtime : Runtime) (maxGroups maxEpisodes : ℕ) (calls : List Call)
    (last : Last ((start maxGroups maxEpisodes).after runtime calls) result groupId row) :
    Closes runtime ((start maxGroups maxEpisodes).after runtime calls) result groupId row ↔
      ∀ plan ∈ row.registration.plans, ∀ episode,
        (join row result).results.get? plan.identity = some episode →
          ¬ Overflows runtime row.registration plan episode := by
  have tables : Tables ((start maxGroups maxEpisodes).after runtime calls) :=
    after_tables (start_tables maxGroups maxEpisodes) calls
  constructor
  · rintro ⟨_, _, -, -, -, closes⟩ plan member episode found overflows
    rw [complete_overflow tables last ⟨plan, member, episode, found, overflows⟩] at closes
    cases (Prod.mk.inj closes).2
  · intro sound
    refine complete_closes tables last ?_
    rintro ⟨plan, member, episode, found, overflows⟩
    exact sound plan member episode found overflows

/-- The second of two failed episodes excludes their group. -/
theorem overflowing_evidence_failed : ∃ row,
    Last ((start 1 2).after plainRuntime [.register (plainRegistration 0), .complete (failed 0)]) (failed 1) 0 row ∧
      Closes plainRuntime ((start 1 2).after plainRuntime [.register (plainRegistration 0), .complete (failed 0)])
        (failed 1) 0 row := by
  have last : Last ((start 1 2).after plainRuntime [.register (plainRegistration 0), .complete (failed 0)]) (failed 1) 0
      ⟨plainRegistration 0, (∅ : OrderedTable EpisodeIdentity EpisodeResult).push (failed 0).identity (failed 0)⟩ :=
    ⟨rfl, by decide, rfl, rfl⟩
  refine ⟨_, last, (overflowing_evidence plainRuntime 1 2 _ last).mpr fun plan _ episode found overflows => ?_⟩
  -- A failed episode has no source.
  have values : (join ⟨plainRegistration 0, (∅ : OrderedTable EpisodeIdentity EpisodeResult).push
      (failed 0).identity (failed 0)⟩ (failed 1)).results.values = [failed 0, failed 1] := rfl
  have member := OrderedTable.mem_values.mpr ⟨_, found⟩
  rw [values, mem_cons, mem_singleton] at member
  have source := overflows.1
  rcases member with rfl | rfl <;> cases source

/-! ### A huge reward -/

/-- A runtime that converts no integer but one; the largest floats are below `10 ^ 400`. -/
def oneRuntime : Runtime where
  numbers := Numbers.decimal 4300 false
  ofInt whole := if whole = 1 then some (1, "1.0".toList) else none
  sha256 _ := []
  ofInt_float found := by
    split_ifs at found
    cases found
    exact ⟨floatLiteral_one, plainRuntime.one⟩
  one := plainRuntime.one

def terminalPlan (sampleIndex : ℕ) : EpisodePlan where
  identity := ⟨"run", .terminalBench, "task", "group", sampleIndex, 0, none, none⟩
  task := ⟨.terminalBench, "task", "source", Coordinator.oneCpu⟩
  agrees := ⟨rfl, rfl⟩

theorem digests_zero : isDigest (replicate 64 48) = true ∧ isDigest (replicate 64 48) = true := by
  decide

def terminalRegistration : GroupRegistration where
  groupId := 0
  plans := [terminalPlan 0, terminalPlan 1]
  policy := ⟨0, replicate 64 48, text "run", [], ⟨1, "1.0".toList⟩⟩
  initialContext := replicate 64 48
  reset := replicate 64 48
  rewardPolicy := ⟨.terminalBench, .terminalValidatedVerifier, rfl⟩
  least := Nat.one_lt_two
  distinct := by decide
  indices := rfl
  wave := by decide
  benchmark := by decide
  digests := digests_zero

def rewarded (sampleIndex : ℕ) (reward : ℤ) : EpisodeResult where
  identity := (terminalPlan sampleIndex).identity
  executionState := "completed"
  verificationState := "evaluated"
  scoreEligible := true
  cleanupState := "verified"
  nativeOutcome := [(text "review_classification", literal "evaluated"),
    (text "validated_reported_reward", .int reward)]
  nativeArtifacts := .null
  failureCategory := none
  requestState := some [(text "state", literal "response_received")]
  sourceSha256 := some "source"

def oneRewarded : GroupAssembler :=
  (start 1 2).after oneRuntime [.register terminalRegistration, .complete (rewarded 0 1)]

def escapes : Checked (Option Receipt) → Bool
  | .error .overflow => true
  | _ => false

/-- The last result of a group has a reward of `10 ^ 400`: the call raises, and the group stays. -/
theorem huge_reward_escapes : ∃ row, Last oneRewarded (rewarded 1 (10 ^ 400)) 0 row ∧
    escapes (oneRewarded.complete oneRuntime (rewarded 1 (10 ^ 400))).2 = true ∧
    ((oneRewarded.complete oneRuntime (rewarded 1 (10 ^ 400))).1.groups.get? 0).isSome = true ∧
    ¬ Closes oneRuntime oneRewarded (rewarded 1 (10 ^ 400)) 0 row := by
  have raises : escapes (oneRewarded.complete oneRuntime (rewarded 1 (10 ^ 400))).2 = true := by
    decide +kernel
  have last : Last oneRewarded (rewarded 1 (10 ^ 400)) 0
      ⟨terminalRegistration, (∅ : OrderedTable EpisodeIdentity EpisodeResult).push
        (rewarded 0 1).identity (rewarded 0 1)⟩ := ⟨rfl, by decide, rfl, rfl⟩
  refine ⟨_, last, raises, by decide +kernel, ?_⟩
  rintro ⟨_, _, -, -, -, closes⟩
  rw [closes] at raises
  cases raises

end GroupAssembler

end TinyDSV41.Records
