/-
**Each group has one outcome.**

Evidence is finite: its integers are no larger than floats, and no number is infinite. Then no `OverflowError`
escapes while a group is judged, and the result that completes a group closes it.

* `sampleOf_raises`, `receiptOf_outcome` — what judging a group raises and returns.
* `Collects` — how the calls behind the registration of a group go on.
* `assembler_accounts` — each registered group has one outcome, at the call that completes its last episode.
-/

import TinyDSV41.Records.RoundTrip
import TinyDSV41.Records.GroupAssembler
import TinyDSV41.Coordinator.Basic

namespace TinyDSV41.Records

open List Lib OrderedTable Json
open TrainingTrajectory (construct construct_ok sampleIndex)
open Coordinator (EpisodeIdentity EpisodePlan kernelPlan)

variable {runtime : Runtime}

/-! ### Finite evidence -/

/-- All numbers of the value are finite, as floats. -/
inductive FiniteData (runtime : Runtime) : Json → Prop
  | null : FiniteData runtime .null
  | bool (value : Bool) : FiniteData runtime (.bool value)
  | int {value : ℤ} (converts : runtime.ofInt value ≠ none) : FiniteData runtime (.int value)
  | float (value : ℚ) (shortest : List Char) : FiniteData runtime (.float value shortest)
  | str (value : Text) : FiniteData runtime (.str value)
  | list {items : List Json} (each : ∀ item ∈ items, FiniteData runtime item) : FiniteData runtime (.list items)
  | object {entries : List (Text × Json)} (each : ∀ entry ∈ entries, FiniteData runtime entry.2) :
      FiniteData runtime (.object entries)

namespace FiniteData

variable {value : Json}

theorem entries {entries : List (Text × Json)} (all : FiniteData runtime (.object entries)) :
    ∀ entry ∈ entries, FiniteData runtime entry.2 := by
  cases all with
  | object each => exact each

section

variable (all : FiniteData runtime value)
include all

theorem field (key : String) : FiniteData runtime (Records.field value key) := by
  unfold Records.field
  cases found : value.get key with
  | none => exact .null
  | some inner =>
    cases all with
    | object each =>
      obtain ⟨entry, there, rfl⟩ := Option.map_eq_some_iff.mp found
      exact each entry (mem_of_find?_eq_some there)
    | _ => cases found

theorem iterate {items : List Json} (ran : Records.iterate value = .ok items) :
    ∀ item ∈ items, FiniteData runtime item := by
  cases all with
  | list each =>
    cases ran
    exact each
  | str | object =>
    cases ran
    exact forall_mem_map.mpr fun _ _ => .str _
  | _ => cases ran

theorem pairOf {pair : Json × Json} (ran : Records.pairOf value = .ok pair) :
    FiniteData runtime pair.1 ∧ FiniteData runtime pair.2 := by
  unfold Records.pairOf at ran
  split at ran
  · cases ran
    cases all with
    | list each => exact ⟨each _ mem_cons_self, each _ (mem_cons_of_mem _ mem_cons_self)⟩
  · cases ran
    exact ⟨.str _, .str _⟩
  · cases ran
    exact ⟨.str _, .str _⟩
  all_goals cases ran

theorem keyed {pairs : List (Json × Json)} {entries : List (Text × Json)}
    (ran : dictOf value = .ok pairs) (found : Records.keyed pairs = some entries) :
    FiniteData runtime (.object entries) := by
  have each := dictOf_all (fun entries same entry mem => ⟨.str _, (same ▸ all).entries entry mem⟩)
    (fun items iterated item mem pair => (all.iterate iterated item mem).pairOf) ran
  rw [keyed_some found] at each
  exact .object fun entry mem => (forall_mem_map.mp each entry mem).2

end

end FiniteData

/-! ### What is raised -/

/-- An exception that is caught while a group is judged. -/
def Caught (failure : Failure) : Prop := failure ≠ .overflow

theorem caught_value (message : String) : Caught (.value message) := fun same => (by cases same)

theorem caught_type : Caught .type := fun same => (by cases same)

theorem require_raises {condition : Prop} [Decidable condition] {message : String} :
    Raises Caught (require condition (.value message)) := .require (caught_value _)

section Raised

variable {value : Json} {message : String} {good : Failure → Prop}

theorem integer_raises {minimum : ℕ} (holds : good (.value message)) : Raises good (integer value minimum message) := by
  unfold integer
  split
  · split_ifs
    · exact .ok _
    · exact .error holds
  · exact .error holds

theorem digestText_raises : Raises Caught (digestText value message) := by
  unfold digestText
  split
  · split_ifs
    · exact .ok _
    · exact .error (caught_value _)
  · exact .error (caught_value _)

theorem nonempty_raises : Raises Caught (nonempty value message) := by
  unfold nonempty
  split
  · split_ifs
    · exact .ok _
    · exact .error (caught_value _)
  · exact .error (caught_value _)

theorem fields_raises {names : List String} : Raises Caught (fields value names) := .require (caught_value _)

theorem iterate_raises : Raises Caught (iterate value) := by
  unfold iterate
  split
  · exact .ok _
  · exact .ok _
  · exact .ok _
  · exact .error caught_type

theorem tokens_raises {name : String} : Raises Caught (tokens value name) := by
  unfold tokens
  split
  · exact .error (caught_value _)
  · refine .bind iterate_raises fun items _ => ?_
    split
    · exact .ok _
    · exact .error (caught_value _)

theorem pairOf_raises : Raises Caught (pairOf value) := by
  unfold pairOf
  split
  · exact .ok _
  · exact .ok _
  · exact .ok _
  · exact .error (caught_value _)
  · exact .error (caught_value _)
  · exact .error (caught_value _)
  · exact .error caught_type

theorem dictOf_raises : Raises Caught (dictOf value) := by
  unfold dictOf
  split
  · exact .ok _
  · refine .bind iterate_raises fun items _ => .bind (.mapM fun _ _ => pairOf_raises) fun pairs _ => ?_
    exact .bind (.require caught_type) fun _ _ => .ok _

theorem finite_raises (all : FiniteData runtime value) : Raises Caught (finite runtime value message) := by
  unfold finite
  cases all with
  | int converts =>
    dsimp only
    split
    · rename_i none_
      exact absurd none_ converts
    · exact .ok _
  | float => exact .ok _
  | _ => exact .error (caught_value _)

theorem finishReasonOf_raises : Raises Caught (finishReasonOf value) := by
  unfold finishReasonOf
  split
  · split
    · exact .ok _
    · exact .error (caught_value _)
  · exact .error caught_type
  · exact .error caught_type
  · exact .error (caught_value _)

theorem policy_raises (all : FiniteData runtime value) : Raises Caught (PolicyRef.fromDict runtime value) := by
  refine .bind fields_raises fun _ _ => .bind (integer_raises (caught_value _)) fun _ _ => ?_
  refine .bind digestText_raises fun _ _ => .bind nonempty_raises fun _ _ => .bind dictOf_raises fun _ _ => ?_
  split
  · exact .error (caught_value _)
  · refine .bind dictOf_raises fun pairs paired => ?_
    split
    · exact .error (caught_value _)
    · rename_i entries named
      have finite := (all.field "sampling").keyed paired named
      refine .bind fields_raises fun _ _ => .bind (finite_raises (finite.field "temperature")) fun _ _ => ?_
      exact .bind require_raises fun _ _ => .ok _

theorem turn_raises (all : FiniteData runtime value) : Raises Caught (TurnTrace.fromDict runtime value) := by
  refine .bind fields_raises fun _ _ => .bind (policy_raises (all.field "policy")) fun _ _ => ?_
  refine .bind (integer_raises (caught_value _)) fun _ _ => .bind nonempty_raises fun _ _ => ?_
  refine .bind tokens_raises fun _ _ => .bind tokens_raises fun _ _ => .bind iterate_raises fun items iterated => ?_
  have numbers := (all.field "behavior_log_probs").iterate iterated
  refine .bind (.mapM fun item mem => finite_raises (numbers item mem)) fun _ _ => ?_
  refine .bind require_raises fun _ _ => .bind finishReasonOf_raises fun _ _ => ?_
  refine .bind (integer_raises (caught_value _)) fun _ _ => .bind require_raises fun _ _ => ?_
  exact .bind nonempty_raises fun _ _ => .ok _

theorem reward_raises {policy : RewardPolicy} {result : EpisodeResult} (all : FiniteData runtime result.outcome) :
    Raises Caught (policy.reward runtime result) := by
  refine .bind require_raises fun _ _ => .bind require_raises fun _ _ => ?_
  refine .bind require_raises fun _ _ => .bind require_raises fun _ _ => ?_
  split
  · split
    · exact .bind require_raises fun _ _ => .ok _
    · exact .error (caught_value _)
  · exact .bind require_raises fun _ _ => finite_raises (all.field _)

theorem flag_raises : Raises Caught (flag value message) := by
  unfold flag
  split
  · exact .ok _
  · exact .error (caught_value _)

theorem exclusion_raises {eligible : Bool} : Raises Caught (exclusion eligible value) := by
  unfold exclusion
  split_ifs
  · split
    · exact .ok _
    · exact .error (caught_value _)
  · exact .map nonempty_raises

theorem sampleIdentity_raises {groupId sampleIndex : ℕ} :
    Raises Caught (sampleIdentity runtime value groupId sampleIndex) := by
  unfold sampleIdentity
  split
  · split_ifs
    · exact .ok _
    · exact .error (caught_value _)
  · exact nonempty_raises

theorem optional_raises {Value : Type} {read : Json → Checked Value} (each : Raises Caught (read value)) :
    Raises Caught (optional value read) := by
  unfold optional
  split
  · exact .ok _
  · exact .map each

theorem normalise_raises : Raises Caught (normalise runtime value) := by
  refine .bind dictOf_raises fun _ _ => ?_
  split
  · exact .ok _
  · exact .error (caught_value _)

/-- Building a trajectory of finite rewards raises no `OverflowError`. -/
theorem trajectory_raises {groupId taskId initialContext reset sampleIndex eligible reason evidence sampleId seed : Json}
    {turns : List TurnTrace} {reward rawReward : Finite} :
    Raises Caught (construct runtime groupId taskId initialContext reset sampleIndex turns reward.json
      eligible reason evidence sampleId rawReward.json seed) := by
  refine .bind (integer_raises (caught_value _)) fun _ _ => .bind (integer_raises (caught_value _)) fun _ _ => ?_
  refine .bind nonempty_raises fun _ _ => .bind digestText_raises fun _ _ => .bind digestText_raises fun _ _ => ?_
  split
  · exact .error (caught_value _)
  · refine .bind require_raises fun _ _ => .bind require_raises fun _ _ => ?_
    refine .bind require_raises fun _ _ => .bind require_raises fun _ _ => ?_
    refine .bind flag_raises fun _ _ => ?_
    refine .bind (optional_raises (finite_raises (.float _ _))) fun _ _ => ?_
    refine .bind (optional_raises (finite_raises (.float _ _))) fun _ _ => ?_
    refine .bind exclusion_raises fun _ _ => .bind (optional_raises (integer_raises (caught_value _))) fun _ _ => ?_
    exact .bind sampleIdentity_raises fun _ _ => .bind normalise_raises fun _ _ => .ok _

end Raised

/-! ### Samples and receipts -/

section Outcomes

variable {registration : GroupRegistration}

theorem turnItems_raises {value : Json} : Raises Caught (turnItems value) := by
  unfold turnItems
  split
  · exact .ok _
  · exact .error (caught_value _)

theorem turnItems_ok {value : Json} {items : List Json} (found : turnItems value = .ok items) :
    value = .list items := by
  unfold turnItems at found
  split at found
  · cases found
    rfl
  · cases found

variable {plan : EpisodePlan}

theorem sampleIdOf_raises {groupId : ℕ} : Raises Caught (sampleIdOf runtime plan groupId) := by
  unfold sampleIdOf
  dsimp only
  split_ifs
  · exact .ok _
  · exact .ok _
  · exact .error (caught_value _)

/-- The evidence of a result is finite data. -/
def EpisodeResult.Finite (runtime : Runtime) (result : EpisodeResult) : Prop := FiniteData runtime result.outcome

theorem sampleOf_raises {episode : EpisodeResult} (finite : episode.Finite runtime) :
    Raises Caught (sampleOf runtime registration plan episode) := by
  refine .bind require_raises fun _ _ => .bind (reward_raises finite) fun reward _ => ?_
  refine .bind turnItems_raises fun items found => ?_
  have each : ∀ item ∈ items, FiniteData runtime item := by
    cases (turnItems_ok found ▸ finite.field "training_turns" : FiniteData runtime (.list items)) with
    | list each => exact each
  refine .bind (.mapM fun item mem => turn_raises (each item mem)) fun _ _ => ?_
  refine .bind require_raises fun _ _ => .bind require_raises fun _ _ => ?_
  exact .bind require_raises fun _ _ => .bind sampleIdOf_raises fun _ _ => trajectory_raises

/-- The episode completed with an eligible reward, under the source and the policy of its group, and the requests of
its turns were answered and their evidence validated; the sample is that of its plan. -/
structure Qualified (runtime : Runtime) (registration : GroupRegistration) (plan : EpisodePlan)
    (episode : EpisodeResult) (sample : TrainingTrajectory) : Prop where
  completed : episode.executionState = "completed" ∧ episode.scoreEligible = true ∧ episode.failureCategory = none
  source : episode.sourceSha256 = some plan.task.sourceSha256
  reward : ∃ value, registration.rewardPolicy.reward runtime episode = .ok value ∧ sample.reward = some value
  turns : ∃ items, field episode.outcome "training_turns" = .list items ∧
    List.Forall₂ (fun item turn => TurnTrace.fromDict runtime item = .ok turn) items sample.turns
  policy : ∀ turn ∈ sample.turns, turn.policy.same registration.policy = true
  answered : ∀ turn ∈ sample.turns, ∃ states state, requestsOf episode = some states ∧
    entryOf states turn.requestId = some state ∧ answered state = true
  plan : sample.groupId = registration.groupId ∧ sample.taskId = text plan.task.taskId ∧
    sample.sampleIndex = plan.identity.sampleIndex ∧ sample.rewardEligible = true

theorem sampleOf_qualified {episode : EpisodeResult} {sample : TrainingTrajectory}
    (built : sampleOf runtime registration plan episode = .ok sample) :
    Qualified runtime registration plan episode sample := by
  obtain ⟨_, source, built⟩ := bind_eq_ok.mp built
  obtain ⟨reward, rewarded, built⟩ := bind_eq_ok.mp built
  obtain ⟨items, listed, built⟩ := bind_eq_ok.mp built
  obtain ⟨turns, each, built⟩ := bind_eq_ok.mp built
  obtain ⟨_, policy, built⟩ := bind_eq_ok.mp built
  obtain ⟨_, -, built⟩ := bind_eq_ok.mp built
  obtain ⟨_, done, built⟩ := bind_eq_ok.mp built
  obtain ⟨_, -, built⟩ := bind_eq_ok.mp built
  obtain ⟨-, ⟨groupId, sampleIndex, taskId, -, -, rfl⟩, ⟨eligible, isReward, -, -⟩, -⟩ :=
    construct_ok.mp built
  obtain ⟨_, ran, -⟩ := bind_eq_ok.mp rewarded
  obtain ⟨-, completed⟩ := require_eq_ok.mp ran
  refine ⟨completed, require_eq_ok.mp source, ⟨reward, rewarded, ?_⟩, ⟨items, ?_, mapM_eq_ok.mp each⟩,
    require_eq_ok.mp policy, fun turn mem => ?_, Int.ofNat.inj (int.inj groupId).symm,
    (str.inj taskId).symm, Int.ofNat.inj (int.inj sampleIndex).symm, (bool.inj eligible).symm⟩
  · rcases optional_ok.mp isReward with ⟨null, -⟩ | ⟨-, inner, found, same⟩
    · cases null
    · rw [same]
      cases found
      rfl
  · exact turnItems_ok listed
  · obtain ⟨states, requests, all⟩ := (Option.any_eq_true _ _).mp (require_eq_ok.mp done)
    obtain ⟨state, there, done⟩ := (Option.any_eq_true _ _).mp (all_eq_true.mp all turn mem)
    exact ⟨states, state, requests, there, done⟩

/-- What is judged where no `OverflowError` escapes. -/
theorem judge_caught {pairs : List (EpisodePlan × EpisodeResult)}
    (caught : ∀ pair ∈ pairs, Raises Caught (sampleOf runtime registration pair.1 pair.2)) :
    ∃ samples reasons, judge runtime registration pairs = .ok (samples, reasons) ∧
      (reasons = [] → List.Forall₂ (fun pair sample => sampleOf runtime registration pair.1 pair.2 = .ok sample)
        pairs samples) := by
  induction pairs with
  | nil => exact ⟨[], [], rfl, fun _ => .nil⟩
  | cons pair rest known =>
    obtain ⟨here, later⟩ := forall_mem_cons.mp caught
    obtain ⟨samples, reasons, judged, all⟩ := known later
    unfold judge
    cases built : sampleOf runtime registration pair.1 pair.2 with
    | ok sample =>
      refine ⟨sample :: samples, reasons, ?_, fun none_ => .cons built (all none_)⟩
      rw [judged]
      rfl
    | error failure =>
      have caught := here failure built
      refine ⟨samples, .sample pair.1.identity.sampleIndex failure :: reasons, ?_, fun none_ => (by cases none_)⟩
      cases failure with
      | overflow => exact absurd rfl caught
      | value | type | key =>
        rw [judged]
        rfl

/-- The outcome of a group, with the results of its episodes in the order of their indices: a training group only of
qualified samples, or else an exclusion with all results. -/
inductive Outcome (runtime : Runtime) (registration : GroupRegistration) (episodes : List EpisodeResult) : Receipt → Prop
  | group {complete : TrainingGroup} (identity : complete.groupId = registration.groupId)
      (size : complete.expectedSize = registration.plans.length) (policy : complete.policy = registration.policy)
      (samples : List.Forall₂ (fun pair sample => Qualified runtime registration pair.1 pair.2 sample)
        (registration.plans.zip episodes) complete.samples) :
      Outcome runtime registration episodes (.group complete)
  | exclusion {reasons : List Reason} (some_ : reasons ≠ []) :
      Outcome runtime registration episodes
        (.exclusion ⟨registration.groupId, registration.plans.length, reasons, episodes⟩)

variable {episodes : List EpisodeResult}

theorem Outcome.groupId {receipt : Receipt} (outcome : Outcome runtime registration episodes receipt) :
    receipt.groupId = registration.groupId := by
  cases outcome with
  | group identity => exact identity
  | exclusion => rfl

variable {samples : List TrainingTrajectory}

/-- Only a `ValueError` is raised while a group of texts is built. -/
theorem group_raises {groupId size : ℕ} {taskId initialContext reset : Text} {policy : PolicyRef} :
    Raises (fun failure => ∃ message, failure = .value message)
      (TrainingGroup.construct (.int groupId) (.str taskId) (.str initialContext) (.str reset) policy (.int size) samples) := by
  refine .bind (integer_raises ⟨_, rfl⟩) fun _ _ => .bind (integer_raises ⟨_, rfl⟩) fun _ _ => ?_
  refine .bind (.require ⟨_, rfl⟩) fun _ _ => .bind (.require ⟨_, rfl⟩) fun _ _ => .bind (.require ⟨_, rfl⟩) fun _ _ => ?_
  refine .bind (.mapM fun _ _ => ?_) fun _ _ => .ok _
  exact .bind (.require ⟨_, rfl⟩) fun _ _ => .require ⟨_, rfl⟩

theorem inOrder_sorted {size : ℕ} (indices : samples.map sampleIndex = range size) :
    TrainingGroup.inOrder samples = samples := by
  refine List.Pairwise.insertionSort_eq (pairwise_map.mp ?_)
  rw [indices]
  exact pairwise_le_range

/-- **A group has an outcome** where no `OverflowError` escapes from its samples. -/
theorem receiptOf_outcome (whole : episodes.length = registration.plans.length)
    (caught : ∀ pair ∈ registration.plans.zip episodes, Raises Caught (sampleOf runtime registration
      pair.1 pair.2)) :
    ∃ receipt, receiptOf runtime registration episodes = .ok receipt ∧ Outcome runtime registration episodes receipt := by
  have judges : ∃ samples reasons,
      judge runtime registration (registration.plans.zip episodes) = .ok (samples, reasons) ∧ _ :=
    judge_caught caught
  obtain ⟨samples, reasons, judged, all⟩ := judges
  unfold receiptOf
  rw [judged]
  show ∃ receipt, (if reasons = [] then _ else _) = Except.ok receipt ∧ _
  by_cases none_ : reasons = []
  · rw [if_pos none_]
    have built := all none_
    have qualified := built.imp fun _ _ => sampleOf_qualified
    have indices : samples.map sampleIndex = range registration.plans.length := by
      have zipped : (registration.plans.zip episodes).map Prod.fst = registration.plans := map_fst_zip whole.ge
      calc samples.map sampleIndex
          = (registration.plans.zip episodes).map fun pair => pair.1.identity.sampleIndex :=
            (forall₂_map_eq qualified fun _ _ found => found.plan.2.2.1.symm).symm
        _ = ((registration.plans.zip episodes).map Prod.fst).map fun plan => plan.identity.sampleIndex :=
            by rw [map_map]; rfl
        _ = range registration.plans.length := by rw [zipped, registration.indices]
    have sorted := inOrder_sorted indices
    split
    · rename_i complete made
      obtain ⟨-, groupId, -, -, -, policy, size, same⟩ := TrainingGroup.construct_ok made
      rw [sorted] at same
      exact ⟨_, rfl, .group (Int.ofNat.inj (int.inj groupId).symm) (Int.ofNat.inj (int.inj size).symm)
        policy.symm (same ▸ qualified)⟩
    · exact ⟨_, rfl, .exclusion (cons_ne_nil _ _)⟩
    · rename_i failure other raised
      obtain ⟨message, rfl⟩ := group_raises _ raised
      exact absurd rfl (other message)
  · rw [if_neg none_]
    exact ⟨_, rfl, .exclusion none_⟩

end Outcomes

/-! ### The tables -/

variable {row : Row}
variable {calls : List Call}
variable {identity : EpisodeIdentity}

namespace GroupAssembler

variable {assembler : GroupAssembler} {registration : GroupRegistration} {result : EpisodeResult}

/-- What holds of a group in the tables. -/
structure Known (assembler : GroupAssembler) (groupId : ℕ) (row : Row) : Prop where
  identity : row.registration.groupId = groupId
  old : (groupId : ℤ) ≤ assembler.lastRegistered
  own : ∀ identity result, row.results.get? identity = some result →
    result.identity = identity ∧ identity ∈ row.registration.identities

/-- What holds between two calls, also behind one that raised. -/
structure Tables (assembler : GroupAssembler) : Prop where
  rows : ∀ groupId row, assembler.groups.get? groupId = some row → Known assembler groupId row
  members : ∀ identity groupId, assembler.episodes.get? identity = some groupId ↔
    ∃ row, assembler.groups.get? groupId = some row ∧ identity ∈ row.registration.identities
  groups : assembler.groups.length ≤ assembler.maxGroups
  episodes : assembler.episodes.length ≤ assembler.maxEpisodes

structure Open (runtime : Runtime) (assembler : GroupAssembler) (groupId : ℕ) (row : Row) : Prop
    extends Known assembler groupId row where
  incomplete : row.results.length < row.registration.plans.length
  finite : ∀ result ∈ row.results.values, result.Finite runtime

/-- What holds between two calls with finite data. -/
structure Sound (runtime : Runtime) (assembler : GroupAssembler) : Prop extends Tables assembler where
  opened : ∀ groupId row, assembler.groups.get? groupId = some row → Open runtime assembler groupId row

theorem start_tables (maxGroups maxEpisodes : ℕ) : Tables (start maxGroups maxEpisodes) where
  rows _ _ found := by cases found
  members _ _ := ⟨fun found => (by cases found), fun ⟨_, found, _⟩ => (by cases found)⟩
  groups := Nat.zero_le _
  episodes := Nat.zero_le _

theorem start_sound (maxGroups maxEpisodes : ℕ) : Sound runtime (start maxGroups maxEpisodes) where
  toTables := start_tables maxGroups maxEpisodes
  opened _ _ found := by cases found

theorem register_cases (assembler : GroupAssembler) (registration : GroupRegistration) :
    (∃ failure, assembler.register registration = (assembler, .error failure)) ∨
    (assembler.lastRegistered < registration.groupId ∧ assembler.groups.length < assembler.maxGroups ∧
      assembler.episodes.length + registration.plans.length ≤ assembler.maxEpisodes ∧
      (∀ identity ∈ registration.identities, assembler.episodes.get? identity = none) ∧
      assembler.register registration = ({ assembler with
        groups := assembler.groups.push registration.groupId ⟨registration, ∅⟩
        episodes := assembler.episodes.pushEach registration.identities registration.groupId
        lastRegistered := registration.groupId }, .ok ())) := by
  unfold register
  by_cases old : (registration.groupId : ℤ) ≤ assembler.lastRegistered
  · exact Or.inl ⟨_, if_pos old⟩
  rw [if_neg old]
  by_cases full : assembler.maxGroups ≤ assembler.groups.length ∨ assembler.maxEpisodes < assembler.episodes.length + registration.plans.length
  · exact Or.inl ⟨_, if_pos full⟩
  rw [if_neg full]
  by_cases taken : (registration.identities.any fun identity => (assembler.episodes.get? identity).isSome) = true
  · exact Or.inl ⟨_, if_pos taken⟩
  rw [if_neg taken]
  obtain ⟨fewer, room⟩ := not_or.mp full
  refine Or.inr ⟨not_le.mp old, not_le.mp fewer, not_lt.mp room, fun identity mem => ?_, rfl⟩
  by_contra some_
  exact taken (any_eq_true.mpr ⟨identity, mem, Option.isSome_iff_ne_none.mpr some_⟩)

def join (row : Row) (result : EpisodeResult) : Row :=
  { row with results := row.results.push result.identity result }

theorem join_own (opened : Known assembler groupId row)
    (mem : result.identity ∈ row.registration.identities) (identity : EpisodeIdentity)
    (found : EpisodeResult) (there : (join row result).results.get? identity = some found) :
    found.identity = identity ∧ identity ∈ row.registration.identities := by
  rcases push_cases there with ⟨rfl, rfl⟩ | ⟨-, there⟩
  · exact ⟨rfl, mem⟩
  · exact opened.own identity found there

/-- The results of a group, in the order of the indices of its plans. -/
structure InOrder (registration : GroupRegistration) (collected episodes : List EpisodeResult) : Prop where
  identities : episodes.map EpisodeResult.identity = registration.identities
  collected : ∀ episode ∈ episodes, episode ∈ collected

def entered (assembler : GroupAssembler) (registration : GroupRegistration) : GroupAssembler :=
  { assembler with
    groups := assembler.groups.push registration.groupId ⟨registration, ∅⟩
    episodes := assembler.episodes.pushEach registration.identities registration.groupId
    lastRegistered := registration.groupId }

def kept (assembler : GroupAssembler) (groupId : ℕ) (row : Row) (result : EpisodeResult) : GroupAssembler :=
  { assembler with groups := assembler.groups.modify groupId fun _ => join row result }

def released (assembler : GroupAssembler) (groupId : ℕ) (row : Row) (result : EpisodeResult) : GroupAssembler :=
  { assembler with
    episodes := assembler.episodes.removeEach row.registration.identities
    groups := (assembler.groups.modify groupId fun _ => join row result).remove groupId }

/-- The result is the last one of a registered group. -/
structure Last (assembler : GroupAssembler) (result : EpisodeResult) (groupId : ℕ) (row : Row) : Prop where
  found : assembler.groups.get? groupId = some row
  member : result.identity ∈ row.registration.identities
  absent : row.results.get? result.identity = none
  whole : row.results.length + 1 = row.registration.plans.length

/-- The last result of a group has its group judged, with the result of each plan. -/
theorem complete_last (tables : Tables assembler)
    (last : Last assembler result groupId row) :
    ∃ episodes, InOrder row.registration (row.results.values ++ [result]) episodes ∧
      episodes.length = row.registration.plans.length ∧
      (∀ pair ∈ row.registration.plans.zip episodes,
        (join row result).results.get? pair.1.identity = some pair.2) ∧
      assembler.complete runtime result =
        match receiptOf runtime row.registration episodes with
        | .error failure => (assembler.kept groupId row result, .error failure)
        | .ok receipt => (assembler.released groupId row result, .ok (some receipt)) := by
  obtain ⟨found, mem, absent, whole⟩ := last
  have entered := (tables.members result.identity groupId).mpr ⟨row, found, mem⟩
  have full : (join row result).results.length = row.registration.plans.length :=
    (length_push absent).trans whole
  have values : (join row result).results.values = row.results.values ++ [result] := values_push absent
  have own : ∀ identity found, (join row result).results.get? identity = some found →
      found.identity = identity ∧ identity ∈ row.registration.identities := join_own (tables.rows groupId row found) mem
  obtain ⟨episodes, gathered, each⟩ := mapM_get?
    (all_keys (fun identity found there => (own identity found there).2)
      (full.symm ▸ (length_map _).le))
  have within : ∀ episode ∈ episodes, episode ∈ row.results.values ++ [result] := by
    intro episode there
    obtain ⟨identity, -, found⟩ := forall₂_right each there
    exact values ▸ mem_values.mpr ⟨identity, found⟩
  refine ⟨episodes, ⟨?_, within⟩, each.length_eq.symm.trans (length_map _), ?_, ?_⟩
  · have same := forall₂_map_eq each fun identity found there => (own identity found there).1.symm
    exact same.symm.trans (map_id _)
  · have plans := forall₂_map_left_iff.mp each
    exact fun pair => (forall₂_iff_zip.mp plans).2
  · have whole : ¬ (row.results.push result.identity result).length ≠ row.registration.plans.length :=
      not_not.mpr full
    have gathered : row.registration.identities.mapM (row.results.push result.identity result).get?
        = some episodes := gathered
    unfold complete
    rw [entered]
    dsimp only
    rw [found]
    dsimp only
    rw [absent, if_neg (fun same => (by cases same)), if_neg whole, gathered]
    dsimp only
    cases receiptOf runtime row.registration episodes <;> rfl

/-- A result is refused, and nothing changes; or it is kept; or it completes its group, whose outcome is returned. -/
theorem complete_cases (sound : Sound runtime assembler) (finite : result.Finite runtime) :
    (∃ failure, assembler.complete runtime result = (assembler, .error failure) ∧
      ∀ groupId row, assembler.groups.get? groupId = some row → result.identity ∈ row.registration.identities →
        (row.results.get? result.identity).isSome = true) ∨
    ∃ groupId row, assembler.groups.get? groupId = some row ∧ result.identity ∈ row.registration.identities ∧
      row.results.get? result.identity = none ∧
      (row.results.length + 1 < row.registration.plans.length ∧ assembler.complete runtime result
          = ({ assembler with groups := assembler.groups.modify groupId fun _ => join row result }, .ok none) ∨
      row.results.length + 1 = row.registration.plans.length ∧
        ∃ episodes receipt, InOrder row.registration (row.results.values ++ [result]) episodes ∧
          Outcome runtime row.registration episodes receipt ∧
          assembler.complete runtime result = ({ assembler with
                  episodes := assembler.episodes.removeEach row.registration.identities
                  groups := (assembler.groups.modify groupId fun _ => join row result).remove groupId },
                .ok (some receipt))) := by
  cases entered : assembler.episodes.get? result.identity with
  | none =>
    refine Or.inl ⟨_, by unfold complete; rw [entered], fun groupId row found mem => ?_⟩
    have there := (sound.members result.identity groupId).mpr ⟨row, found, mem⟩
    rw [entered] at there
    cases there
  | some groupId =>
    obtain ⟨row, found, mem⟩ := (sound.members result.identity groupId).mp entered
    have opened := sound.opened groupId row found
    cases present : row.results.get? result.identity with
    | some known =>
      refine Or.inl ⟨.value "duplicate benchmark episode completion", ?_, fun other row' found' member' => ?_⟩
      · unfold complete
        rw [entered]
        dsimp only
        rw [found]
        exact if_pos (by rw [present]; rfl)
      · have same := (sound.members result.identity other).mpr ⟨row', found', member'⟩
        cases entered.symm.trans same
        cases found.symm.trans found'
        rw [present]
        rfl
    | none =>
      refine Or.inr ⟨groupId, row, found, mem, present, ?_⟩
      by_cases last : row.results.length + 1 = row.registration.plans.length
      · obtain ⟨episodes, ordered, count, -, judged⟩ :=
          complete_last sound.toTables ⟨found, mem, present, last⟩
        obtain ⟨receipt, made, outcome⟩ := receiptOf_outcome count fun pair there => sampleOf_raises <| by
          rcases mem_append.mp (ordered.collected pair.2 (of_mem_zip there).2) with known | new
          · exact opened.finite pair.2 known
          · exact mem_singleton.mp new ▸ finite
        refine Or.inr ⟨last, episodes, receipt, ordered, outcome, ?_⟩
        rw [judged, made]
        rfl
      · refine Or.inl ⟨lt_of_le_of_ne opened.incomplete last, ?_⟩
        have length : (join row result).results.length = row.results.length + 1 :=
          length_push present
        unfold complete
        rw [entered]
        dsimp only
        rw [found]
        dsimp only
        rw [present, if_neg (fun same => (by cases same))]
        exact if_pos fun same => last (length.symm.trans same)

theorem entered_groups : (assembler.entered registration).groups.get? groupId
    = if groupId = registration.groupId then some ⟨registration, ∅⟩ else assembler.groups.get? groupId :=
  get?_push

theorem entered_tables (sound : Tables assembler) (new : assembler.lastRegistered < registration.groupId)
    (fewer : assembler.groups.length < assembler.maxGroups)
    (room : assembler.episodes.length + registration.plans.length ≤ assembler.maxEpisodes)
    (free : ∀ identity ∈ registration.identities, assembler.episodes.get? identity = none) :
    Tables (assembler.entered registration) := by
  have absent : assembler.groups.get? registration.groupId = none := by
    by_contra some_
    obtain ⟨row, found⟩ := Option.ne_none_iff_exists'.mp some_
    exact absurd (sound.rows _ row found).old (not_le.mpr new)
  refine ⟨fun groupId row found => ?_, fun identity groupId => ?_, ?_, ?_⟩
  · rw [entered_groups] at found
    split_ifs at found with same
    · cases found
      exact ⟨same.symm, same ▸ le_refl _, fun _ _ there => (by cases there)⟩
    · have opened := sound.rows groupId row found
      exact ⟨opened.identity, opened.old.trans new.le, opened.own⟩
  · have episodes : (assembler.entered registration).episodes.get? identity
        = if identity ∈ registration.identities then some registration.groupId else assembler.episodes.get? identity :=
      get?_pushEach
    rw [episodes, entered_groups]
    by_cases mem : identity ∈ registration.identities
    · rw [if_pos mem, Option.some_inj]
      constructor
      · rintro rfl
        exact ⟨_, if_pos rfl, mem⟩
      · rintro ⟨row, found, within⟩
        by_contra differs
        rw [if_neg fun same => differs same.symm] at found
        have there := (sound.members identity groupId).mpr ⟨row, found, within⟩
        rw [free identity mem] at there
        cases there
    · rw [if_neg mem, sound.members]
      constructor
      · rintro ⟨row, found, within⟩
        refine ⟨row, ?_, within⟩
        have differs : groupId ≠ registration.groupId := by
          rintro rfl
          cases absent.symm.trans found
        exact (if_neg differs).trans found
      · rintro ⟨row, found, within⟩
        split_ifs at found
        · cases found
          exact absurd within mem
        · exact ⟨row, found, within⟩
  · exact (length_push absent).trans_le fewer
  · have count : registration.identities.length = registration.plans.length := length_map _
    refine (length_pushEach registration.distinct free).trans_le ?_
    exact (congrArg _ count).trans_le room

theorem entered_sound (sound : Sound runtime assembler) (new : assembler.lastRegistered < registration.groupId)
    (fewer : assembler.groups.length < assembler.maxGroups)
    (room : assembler.episodes.length + registration.plans.length ≤ assembler.maxEpisodes)
    (free : ∀ identity ∈ registration.identities, assembler.episodes.get? identity = none) :
    Sound runtime (assembler.entered registration) := by
  have tables := entered_tables sound.toTables new fewer room free
  refine ⟨tables, fun groupId row found => ⟨tables.rows groupId row found, ?_, ?_⟩⟩ <;>
    rw [entered_groups] at found <;> split_ifs at found
  · cases found
    exact Nat.lt_of_lt_of_le Nat.two_pos registration.least
  · exact (sound.opened groupId row found).incomplete
  · cases found
    exact fun _ mem => (by cases mem)
  · exact (sound.opened groupId row found).finite

theorem kept_groups {groupId other : ℕ} {row' : Row} :
    (assembler.kept groupId row result).groups.get? other = some row' ↔
      ∃ before, assembler.groups.get? other = some before ∧ row' = if other = groupId then join row result else before :=
  get?_modify_some

theorem kept_tables (sound : Tables assembler)
    (found : assembler.groups.get? groupId = some row)
    (mem : result.identity ∈ row.registration.identities) :
    Tables (assembler.kept groupId row result) := by
  have opened := sound.rows groupId row found
  refine ⟨fun other row' there => ?_, fun identity other => ?_, ?_, sound.episodes⟩
  · obtain ⟨before, old, rfl⟩ := kept_groups.mp there
    have known := sound.rows other before old
    split_ifs with same
    · cases same
      exact ⟨opened.identity, opened.old, join_own opened mem⟩
    · exact ⟨known.identity, known.old, known.own⟩
  · refine (sound.members identity other).trans ?_
    constructor
    · rintro ⟨before, there, within⟩
      refine ⟨_, kept_groups.mpr ⟨before, there, rfl⟩, ?_⟩
      split_ifs with same
      · cases same
        cases found.symm.trans there
        exact within
      · exact within
    · rintro ⟨row', there, within⟩
      obtain ⟨before, old, rfl⟩ := kept_groups.mp there
      refine ⟨before, old, ?_⟩
      split_ifs at within with same
      · cases same
        cases found.symm.trans old
        exact within
      · exact within
  · exact length_modify.trans_le sound.groups

theorem kept_sound (sound : Sound runtime assembler) (finite : result.Finite runtime)
    (found : assembler.groups.get? groupId = some row)
    (mem : result.identity ∈ row.registration.identities)
    (absent : row.results.get? result.identity = none)
    (more : row.results.length + 1 < row.registration.plans.length) :
    Sound runtime (assembler.kept groupId row result) := by
  have tables := kept_tables sound.toTables found mem
  have opened := sound.opened groupId row found
  refine ⟨tables, fun other row' there => ⟨tables.rows other row' there, ?_, ?_⟩⟩ <;>
    obtain ⟨before, old, rfl⟩ := kept_groups.mp there <;> split_ifs with same
  · exact (length_push absent).trans_lt more
  · exact (sound.opened other before old).incomplete
  · have values : (join row result).results.values = row.results.values ++ [result] := values_push absent
    rw [values]
    intro other there
    rcases mem_append.mp there with known | new
    · exact opened.finite other known
    · exact mem_singleton.mp new ▸ finite
  · exact (sound.opened other before old).finite

theorem released_groups {groupId other : ℕ} : (assembler.released groupId row result).groups.get? other
      = if other = groupId then none else assembler.groups.get? other := by
  show ((assembler.groups.modify groupId _).remove groupId).get? other = _
  rw [get?_remove]
  by_cases same : other = groupId
  · rw [if_pos same, if_pos same]
  · rw [if_neg same, if_neg same, get?_modify_ne same]

theorem released_episodes : (assembler.released groupId row result).episodes.get? identity
      = if identity ∈ row.registration.identities then none else assembler.episodes.get? identity :=
  get?_removeEach

theorem released_tables (sound : Tables assembler)
    (found : assembler.groups.get? groupId = some row) :
    Tables (assembler.released groupId row result) := by
  refine ⟨fun other row' there => ?_, fun identity other => ?_, ?_, ?_⟩
  · rw [released_groups] at there
    split_ifs at there
    have known := sound.rows other row' there
    exact ⟨known.identity, known.old, known.own⟩
  · rw [released_episodes, released_groups]
    by_cases same : other = groupId
    · subst same
      rw [if_pos rfl]
      refine ⟨fun there => ?_, fun ⟨_, there, _⟩ => (by cases there)⟩
      split_ifs at there with within
      obtain ⟨row', found', within'⟩ := (sound.members identity other).mp there
      cases found.symm.trans found'
      exact absurd within' within
    · rw [if_neg same, ← sound.members]
      by_cases within : identity ∈ row.registration.identities
      · rw [if_pos within]
        refine ⟨fun there => (by cases there), fun there => ?_⟩
        have here := (sound.members identity groupId).mpr ⟨row, found, within⟩
        exact absurd (Option.mem_unique there here) same
      · rw [if_neg within]
  · exact (length_remove_le.trans length_modify.le).trans sound.groups
  · exact length_removeEach_le.trans sound.episodes

theorem released_sound (sound : Sound runtime assembler)
    (found : assembler.groups.get? groupId = some row) :
    Sound runtime (assembler.released groupId row result) := by
  have tables : Tables (assembler.released groupId row result) := released_tables sound.toTables found
  refine ⟨tables, fun other row' there => ⟨tables.rows other row' there, ?_, ?_⟩⟩ <;>
    rw [released_groups] at there <;> split_ifs at there
  · exact (sound.opened other row' there).incomplete
  · exact (sound.opened other row' there).finite

/-- What one call does between two sound states. -/
inductive Steps (runtime : Runtime) (assembler : GroupAssembler) : Call → GroupAssembler × Response → Prop
  | refused {call : Call} {failure : Failure}
      (known : ∀ result, call = .complete result → ∀ groupId row, assembler.groups.get? groupId = some row →
        result.identity ∈ row.registration.identities → (row.results.get? result.identity).isSome = true) :
      Steps runtime assembler call (assembler, .raised failure)
  | registered {registration : GroupRegistration} (new : assembler.lastRegistered < registration.groupId)
      (free : ∀ identity ∈ registration.identities, assembler.episodes.get? identity = none) :
      Steps runtime assembler (.register registration) (assembler.entered registration, .registered)
  | kept {result : EpisodeResult} {groupId : ℕ} {row : Row} (found : assembler.groups.get? groupId = some row)
      (member : result.identity ∈ row.registration.identities) (absent : row.results.get? result.identity = none)
      (more : row.results.length + 1 < row.registration.plans.length) :
      Steps runtime assembler (.complete result) (assembler.kept groupId row result, .waiting)
  | released {result : EpisodeResult} {groupId : ℕ} {row : Row} (found : assembler.groups.get? groupId = some row)
      (member : result.identity ∈ row.registration.identities) (absent : row.results.get? result.identity = none)
      (last : row.results.length + 1 = row.registration.plans.length) {episodes : List EpisodeResult}
      {receipt : Receipt} (ordered : InOrder row.registration (row.results.values ++ [result]) episodes)
      (outcome : Outcome runtime row.registration episodes receipt) :
      Steps runtime assembler (.complete result) (assembler.released groupId row result, .produced receipt)

def Call.Finite (runtime : Runtime) : Call → Prop
  | .register _ => True
  | .complete result => result.Finite runtime

section

variable (sound : Sound runtime assembler)
include sound

/-- **One call**, from a sound state to a sound state. -/
theorem step_cases {call : Call} (finite : call.Finite runtime) :
    Steps runtime assembler call (assembler.step runtime call) ∧
      Sound runtime (assembler.step runtime call).1 := by
  cases call with
  | register registration =>
    rcases register_cases assembler registration with ⟨failure, refused⟩ | ⟨new, fewer, room, free, accepted⟩
    · have stepped : assembler.step runtime (.register registration) = (assembler, .raised failure) := by
        unfold step
        dsimp only
        rw [refused]
      rw [stepped]
      exact ⟨.refused fun _ same => (by cases same), sound⟩
    · have stepped : assembler.step runtime (.register registration)
          = (assembler.entered registration, .registered) := by
        unfold step
        dsimp only
        rw [accepted]
        rfl
      rw [stepped]
      exact ⟨.registered new free, entered_sound sound new fewer room free⟩
  | complete result =>
    rcases complete_cases sound finite with ⟨failure, refused, known⟩ |
      ⟨groupId, row, found, mem, absent, ⟨more, waits⟩ | ⟨last, episodes, receipt, ordered, outcome, closes⟩⟩
    · have stepped : assembler.step runtime (.complete result) = (assembler, .raised failure) := by
        unfold step
        dsimp only
        rw [refused]
      rw [stepped]
      exact ⟨.refused fun _ same => (by cases same; exact known), sound⟩
    · have stepped : assembler.step runtime (.complete result)
          = (assembler.kept groupId row result, .waiting) := by
        unfold step
        dsimp only
        rw [waits]
        rfl
      rw [stepped]
      exact ⟨.kept found mem absent more, kept_sound sound finite found mem absent more⟩
    · have stepped : assembler.step runtime (.complete result)
          = (assembler.released groupId row result, .produced receipt) := by
        unfold step
        dsimp only
        rw [closes]
        rfl
      rw [stepped]
      exact ⟨.released found mem absent last ordered outcome, released_sound sound found⟩

theorem after_sound (finite : ∀ call ∈ calls, call.Finite runtime) :
    Sound runtime (assembler.after runtime calls) := by
  induction calls generalizing assembler with
  | nil => exact sound
  | cons call rest known =>
    obtain ⟨here, later⟩ := forall_mem_cons.mp finite
    exact known (step_cases sound here).2 later

theorem after_bounds (finite : ∀ call ∈ calls, call.Finite runtime) :
    (assembler.after runtime calls).maxGroups = assembler.maxGroups ∧
      (assembler.after runtime calls).maxEpisodes = assembler.maxEpisodes := by
  induction calls generalizing assembler with
  | nil => exact ⟨rfl, rfl⟩
  | cons call rest known =>
    obtain ⟨here, later⟩ := forall_mem_cons.mp finite
    obtain ⟨steps, sound'⟩ := step_cases sound here
    obtain ⟨groups, episodes⟩ := known sound' later
    have kept : (assembler.step runtime call).1.maxGroups = assembler.maxGroups ∧
        (assembler.step runtime call).1.maxEpisodes = assembler.maxEpisodes := by
      generalize assembler.step runtime call = next at steps
      cases steps <;> exact ⟨rfl, rfl⟩
    exact ⟨groups.trans kept.1, episodes.trans kept.2⟩

end

end GroupAssembler

/-! ### Runs -/

open GroupAssembler (Call Response)

def GroupRegistration.owns (registration : GroupRegistration) (result : EpisodeResult) : Prop :=
  result.identity ∈ registration.identities

/-- Behind the outcome of a group there is no other one, and its episodes are refused until a later group registers
them. -/
structure Closed (registration : GroupRegistration) (log : List (Call × Response)) : Prop where
  quiet : ∀ event ∈ log, ∀ receipt, event.2 = .produced receipt → receipt.groupId ≠ registration.groupId
  refused : ∀ before result response rest, log = before ++ (.complete result, response) :: rest →
    registration.owns result → (∀ other, (.register other, .registered) ∈ before →
      result.identity ∉ other.identities) → ∃ failure, response = .raised failure

/-- How the calls go on behind the registration of a group of which some results have come in. -/
inductive Collects (runtime : Runtime) (registration : GroupRegistration) :
    List EpisodeResult → List (Call × Response) → Prop
  | pause (collected : List EpisodeResult) : Collects runtime registration collected []
  /-- A call for other groups, without an outcome of this one. -/
  | other {collected : List EpisodeResult} {event : Call × Response} {log : List (Call × Response)}
      (foreign : ∀ result, event.1 = .complete result → ¬ registration.owns result)
      (quiet : ∀ receipt, event.2 = .produced receipt → receipt.groupId ≠ registration.groupId)
      (rest : Collects runtime registration collected log) : Collects runtime registration collected (event :: log)
  /-- An episode that has come in already is refused. -/
  | repeated {collected : List EpisodeResult} {result : EpisodeResult} {failure : Failure}
      {log : List (Call × Response)} (known : result.identity ∈ collected.map EpisodeResult.identity)
      (rest : Collects runtime registration collected log) :
      Collects runtime registration collected ((.complete result, .raised failure) :: log)
  /-- An episode comes in, and others are missing. -/
  | sibling {collected : List EpisodeResult} {result : EpisodeResult} {log : List (Call × Response)}
      (owned : registration.owns result) (fresh : result.identity ∉ collected.map EpisodeResult.identity)
      (more : collected.length + 1 < registration.plans.length)
      (rest : Collects runtime registration (collected ++ [result]) log) :
      Collects runtime registration collected ((.complete result, .waiting) :: log)
  /-- The last episode comes in; the outcome is returned. -/
  | last {collected : List EpisodeResult} {result : EpisodeResult} {log : List (Call × Response)}
      {episodes : List EpisodeResult} {receipt : Receipt} (owned : registration.owns result)
      (fresh : result.identity ∉ collected.map EpisodeResult.identity)
      (whole : collected.length + 1 = registration.plans.length)
      (ordered : GroupAssembler.InOrder registration (collected ++ [result]) episodes)
      (outcome : Outcome runtime registration episodes receipt) (rest : Closed registration log) :
      Collects runtime registration collected ((.complete result, .produced receipt) :: log)

namespace GroupAssembler

/-- A group that is gone has no outcome any more. -/
theorem log_quiet (sound : Sound runtime assembler)
    (gone : assembler.groups.get? groupId = none) (old : (groupId : ℤ) ≤ assembler.lastRegistered)
    (finite : ∀ call ∈ calls, call.Finite runtime) :
    ∀ event ∈ assembler.log runtime calls, ∀ receipt, event.2 = .produced receipt → receipt.groupId ≠ groupId := by
  induction calls generalizing assembler with
  | nil => exact fun _ mem => (by cases mem)
  | cons call rest known =>
    obtain ⟨here, later⟩ := forall_mem_cons.mp finite
    obtain ⟨steps, sound'⟩ := step_cases sound here
    unfold log
    generalize assembler.step runtime call = next at steps sound'
    refine forall_mem_cons.mpr ⟨fun receipt same => ?_, ?_⟩
    · cases steps with
      | released found _ _ _ _ outcome =>
        cases same
        rintro rfl
        rw [outcome.groupId, (sound.rows _ _ found).identity] at gone
        cases gone.symm.trans found
      | _ => cases same
    · cases steps with
      | refused => exact known sound' gone old later
      | registered new =>
        refine known sound' ?_ (old.trans new.le) later
        have differs : groupId ≠ _ := fun same => absurd old (not_le.mpr (same ▸ new))
        exact (get?_push_ne differs).trans gone
      | kept found =>
        refine known sound' ?_ old later
        exact get?_modify.trans (by rw [gone]; rfl)
      | released found =>
        refine known sound' ?_ old later
        rw [released_groups, gone, ite_self]

/-- An episode that no open group has is refused until a group registers it. -/
theorem log_refused (sound : Sound runtime assembler) (absent : assembler.episodes.get? identity = none)
    (finite : ∀ call ∈ calls, call.Finite runtime)
    {result : EpisodeResult} {response : Response}
    (split : assembler.log runtime calls = before ++ (.complete result, response) :: rest)
    (own : result.identity = identity)
    (free : ∀ other, (.register other, .registered) ∈ before → identity ∉ other.identities) :
    ∃ failure, response = .raised failure := by
  induction calls generalizing assembler before with
  | nil =>
    cases before with
    | nil | cons => cases split
  | cons call others known =>
    obtain ⟨here, later⟩ := forall_mem_cons.mp finite
    obtain ⟨steps, sound'⟩ := step_cases sound here
    unfold log at split
    generalize assembler.step runtime call = next at steps sound' split
    cases before with
    | nil =>
      obtain ⟨event, -⟩ := cons.inj split
      cases event
      have unknown : ∀ groupId row, assembler.groups.get? groupId = some row →
          result.identity ∉ row.registration.identities := by
        intro groupId row found mem
        have there := (sound.members result.identity groupId).mpr ⟨row, found, mem⟩
        rw [own, absent] at there
        cases there
      cases steps with
      | refused => exact ⟨_, rfl⟩
      | kept found mem | released found mem => exact absurd mem (unknown _ _ found)
    | cons event before =>
      obtain ⟨first, tail⟩ := cons.inj split
      have free' : ∀ other, (.register other, .registered) ∈ before → identity ∉ other.identities :=
        fun other mem => free other (mem_cons_of_mem _ mem)
      cases steps with
      | refused | kept => exact known sound' absent later tail free'
      | registered =>
        have unused := free _ (mem_cons.mpr (Or.inl first))
        exact known sound' (get?_pushEach.trans ((if_neg unused).trans absent)) later tail free'
      | released => exact known sound' (released_episodes.trans (by rw [absent, ite_self])) later tail free'

theorem values_known (opened : Known assembler groupId row) (identity : EpisodeIdentity) :
    identity ∈ row.results.values.map EpisodeResult.identity ↔ (row.results.get? identity).isSome = true := by
  rw [mem_map, Option.isSome_iff_exists]
  constructor
  · rintro ⟨result, mem, rfl⟩
    obtain ⟨key, there⟩ := mem_values.mp mem
    exact ⟨result, (opened.own key result there).1 ▸ there⟩
  · rintro ⟨result, there⟩
    exact ⟨result, mem_values.mpr ⟨identity, there⟩, (opened.own identity result there).1⟩

/-- **What becomes of an open group.** -/
theorem log_collects (sound : Sound runtime assembler)
    (found : assembler.groups.get? groupId = some row) (finite : ∀ call ∈ calls, call.Finite runtime) :
    Collects runtime row.registration row.results.values (assembler.log runtime calls) := by
  induction calls generalizing assembler row with
  | nil => exact .pause _
  | cons call rest known =>
    obtain ⟨here, later⟩ := forall_mem_cons.mp finite
    obtain ⟨steps, sound'⟩ := step_cases sound here
    have opened := sound.rows groupId row found
    have count : row.results.values.length = row.results.length := length_values
    have collected : ∀ identity, identity ∈ row.results.values.map EpisodeResult.identity ↔
        (row.results.get? identity).isSome = true := values_known opened
    -- The episodes of this group are those of no other one.
    have unique : ∀ {result other row'}, assembler.groups.get? other = some row' →
        result ∈ row'.registration.identities → result ∈ row.registration.identities → other = groupId := by
      intro result other row' found' member' mem
      have first := (sound.members result other).mpr ⟨row', found', member'⟩
      have second := (sound.members result groupId).mpr ⟨row, found, mem⟩
      exact Option.mem_unique first second
    unfold log
    generalize assembler.step runtime call = next at steps sound'
    cases steps with
    | refused refuses =>
      have continued := known sound' found later
      cases call with
      | register registration => exact .other (fun _ same => (by cases same)) (fun _ same => (by cases same)) continued
      | complete result =>
        by_cases owned : row.registration.owns result
        · exact .repeated ((collected _).mpr (refuses result rfl groupId row found owned)) continued
        · exact .other (fun _ same => (by cases same; exact owned)) (fun _ same => (by cases same)) continued
    | registered new free =>
      refine .other (fun _ same => (by cases same)) (fun _ same => (by cases same)) (known sound' ?_ later)
      have differs : groupId ≠ _ := fun same => absurd opened.old (not_le.mpr (same ▸ new))
      exact (get?_push_ne differs).trans found
    | @kept result other row' found' mem absent more =>
      by_cases same : other = groupId
      · subst same
        cases found.symm.trans found'
        have fresh : result.identity ∉ row.results.values.map EpisodeResult.identity := by
          rw [collected, absent]
          exact Bool.false_ne_true
        have values : (join row result).results.values = row.results.values ++ [result] :=
          values_push absent
        have joined : (assembler.kept other row result).groups.get? other = some (join row result) := by
          refine get?_modify.trans ?_
          rw [found, Option.map_some, if_pos rfl]
        exact .sibling mem fresh (count ▸ more) (values ▸ known sound' joined later)
      · refine .other (fun _ same' => ?_) (fun _ same => (by cases same)) (known sound' ?_ later)
        · cases same'
          exact fun owned => same (unique found' mem owned)
        · exact (get?_modify_ne fun same' => same same'.symm).trans found
    | @released result other row' found' mem absent last episodes receipt ordered outcome =>
      by_cases same : other = groupId
      · subst same
        cases found.symm.trans found'
        have fresh : result.identity ∉ row.results.values.map EpisodeResult.identity := by
          rw [collected, absent]
          exact Bool.false_ne_true
        refine .last mem fresh (count ▸ last) ordered outcome ⟨?_, ?_⟩
        · have gone : (assembler.released other row result).groups.get? other = none :=
            released_groups.trans (if_pos rfl)
          rw [opened.identity]
          exact log_quiet sound' gone opened.old later
        · intro before result' response rest' split owned free
          have gone : (assembler.released other row result).episodes.get? result'.identity = none :=
            released_episodes.trans (if_pos owned)
          exact log_refused sound' gone later split rfl free
      · refine .other (fun _ same' => ?_) (fun receipt same' => ?_) (known sound' ?_ later)
        · cases same'
          exact fun owned => same (unique found' mem owned)
        · cases same'
          rw [outcome.groupId, (sound.rows other row' found').identity, opened.identity]
          exact same
        · rw [released_groups, if_neg fun same' => same same'.symm]
          exact found

theorem log_split {assembler : GroupAssembler}
    {event : Call × Response} (split : assembler.log runtime calls = before ++ event :: rest) :
    ∃ first later, calls = first ++ event.1 :: later ∧
      ((assembler.after runtime first).step runtime event.1).2 = event.2 ∧
      ((assembler.after runtime first).step runtime event.1).1.log runtime later = rest := by
  induction calls generalizing assembler before with
  | nil =>
    cases before with
    | nil | cons => cases split
  | cons call others known =>
    cases before with
    | nil =>
      obtain ⟨here, tail⟩ := cons.inj split
      exact ⟨[], others, by rw [← here]; rfl, by rw [← here]; rfl, by rw [← here]; exact tail⟩
    | cons first before =>
      obtain ⟨-, tail⟩ := cons.inj split
      obtain ⟨earlier, later, shape, response, same⟩ := known tail
      exact ⟨call :: earlier, later, congrArg _ shape, response, same⟩

/-- An outcome is that of a group that was registered before. -/
theorem produced_registered (sound : Sound runtime assembler)
    (finite : ∀ call ∈ calls, call.Finite runtime) {call : Call} {receipt : Receipt}
    (mem : (call, .produced receipt) ∈ assembler.log runtime calls) :
    (∃ row, assembler.groups.get? receipt.groupId = some row) ∨
      ∃ registration, (.register registration, .registered) ∈ assembler.log runtime calls ∧
        registration.groupId = receipt.groupId := by
  induction calls generalizing assembler with
  | nil => cases mem
  | cons first rest known =>
    obtain ⟨here, later⟩ := forall_mem_cons.mp finite
    obtain ⟨steps, sound'⟩ := step_cases sound here
    unfold log at mem ⊢
    generalize assembler.step runtime first = next at steps sound' mem
    rcases mem_cons.mp mem with same | member'
    · cases steps with
      | @released _ _ row found _ _ _ _ _ _ outcome =>
        cases same
        refine Or.inl ⟨row, ?_⟩
        rw [outcome.groupId, (sound.rows _ _ found).identity]
        exact found
      | _ => cases same
    · rcases known sound' later member' with ⟨row, found⟩ | ⟨registration, there, same⟩
      · cases steps with
        | refused => exact Or.inl ⟨row, found⟩
        | @registered registration _ _ =>
          rcases push_cases found with ⟨same, -⟩ | ⟨-, found⟩
          · exact Or.inr ⟨registration, mem_cons_self, same.symm⟩
          · exact Or.inl ⟨row, found⟩
        | kept =>
          obtain ⟨before, there, -⟩ := get?_modify_some.mp found
          exact Or.inl ⟨before, there⟩
        | released =>
          rw [released_groups] at found
          split_ifs at found
          exact Or.inl ⟨row, found⟩
      · exact Or.inr ⟨registration, mem_cons_of_mem _ there, same⟩

theorem registered_collects (sound : Sound runtime assembler) {registration : GroupRegistration} {later : List Call}
    {rest : List (Call × Response)} (response : (assembler.step runtime (.register registration)).2 = .registered)
    (same : (assembler.step runtime (.register registration)).1.log runtime later = rest)
    (finite : ∀ call ∈ later, call.Finite runtime) : Collects runtime registration [] rest := by
  have here : (Call.register registration).Finite runtime := trivial
  obtain ⟨steps, sound'⟩ := step_cases sound here
  generalize assembler.step runtime (.register registration) = next at steps sound' response same
  cases steps with
  | refused => cases response
  | registered new free =>
    have found : (assembler.entered registration).groups.get? registration.groupId = some ⟨registration, ∅⟩ :=
      get?_push_self
    exact same ▸ log_collects sound' found finite

/-- **Each registered group has one outcome**, at the call that completes its last episode; behind it, its episodes
are refused until a later group registers them. No other outcome is returned, the open groups and episodes keep
within their bounds, and a registration that raises changes nothing. -/
theorem assembler_accounts (runtime : Runtime) (maxGroups maxEpisodes : ℕ) (calls : List Call)
    (finite : ∀ call ∈ calls, call.Finite runtime) :
    (∀ before registration rest,
      (start maxGroups maxEpisodes).log runtime calls = before ++ (.register registration, .registered) :: rest →
        Collects runtime registration [] rest) ∧
    (∀ call receipt, (call, .produced receipt) ∈ (start maxGroups maxEpisodes).log runtime calls →
      ∃ registration, (.register registration, .registered) ∈ (start maxGroups maxEpisodes).log runtime calls ∧
        registration.groupId = receipt.groupId) ∧
    ((start maxGroups maxEpisodes).after runtime calls).groups.length ≤ maxGroups ∧
    ((start maxGroups maxEpisodes).after runtime calls).episodes.length ≤ maxEpisodes ∧
    ∀ registration failure,
      (((start maxGroups maxEpisodes).after runtime calls).register registration).2 = .error failure →
        (((start maxGroups maxEpisodes).after runtime calls).register registration).1
          = (start maxGroups maxEpisodes).after runtime calls := by
  have initial : Sound runtime (start maxGroups maxEpisodes) := start_sound maxGroups maxEpisodes
  have sound := after_sound initial finite
  obtain ⟨groups, episodes⟩ := after_bounds initial finite
  refine ⟨fun before registration rest split => ?_, fun call receipt member => ?_, sound.groups.trans groups.le,
    sound.episodes.trans episodes.le, fun registration failure raised => ?_⟩
  · obtain ⟨first, later, shape, response, same⟩ := log_split split
    have finite' : ∀ call ∈ first ++ .register registration :: later, call.Finite runtime := shape ▸ finite
    have here := after_sound initial fun call member => finite' call (mem_append_left _ member)
    have finite'' : ∀ call ∈ later, call.Finite runtime :=
      fun call member => finite' call (mem_append_right _ (mem_cons_of_mem _ member))
    exact registered_collects here response same finite''
  · rcases produced_registered initial finite member with ⟨row, found⟩ | registered
    · cases found
    · exact registered
  · rcases register_cases ((start maxGroups maxEpisodes).after runtime calls) registration with
      ⟨other, refused⟩ | ⟨-, -, -, -, accepted⟩
    · rw [refused]
    · rw [accepted] at raised
      cases raised

/-! ### A group that is registered twice -/

def plainRegistration (groupId : ℕ) : GroupRegistration where
  groupId
  plans := [kernelPlan 0, kernelPlan 1]
  policy := ⟨0, replicate 64 48, text "run", [], ⟨1, "1.0".toList⟩⟩
  initialContext := replicate 64 48
  reset := replicate 64 48
  rewardPolicy := ⟨.kernelbench, .nativeFinalCorrectness, rfl⟩
  least := le_refl 2
  distinct := by decide
  indices := rfl
  wave := by decide
  benchmark := by decide
  digests := by decide

def failed (sampleIndex : ℕ) : EpisodeResult :=
  ⟨(kernelPlan sampleIndex).identity, "failed", "unknown", false, "verified", [], .null, some "error", none, none⟩

/-- The group completes, and a later group has the same episodes. -/
def againCalls : List Call :=
  [.register (plainRegistration 0), .complete (failed 0), .complete (failed 1), .register (plainRegistration 1),
    .complete (failed 0)]

def Response.outcome : Response → Option ℕ
  | .produced receipt => some receipt.groupId
  | _ => none

def Response.accepts : Response → Bool
  | .raised _ => false
  | _ => true

/-- The first episode is accepted before the outcome of its group, and again behind it. -/
theorem accepted_again :
    ((start 1 2).log plainRuntime againCalls).map (fun event => (event.2.outcome, event.2.accepts))
      = [(none, true), (none, true), (some 0, true), (none, true), (none, true)] := by
  decide +kernel

/-- A runtime that converts the integers zero and one, with digests of digits. -/
def digitRuntime : Runtime where
  numbers := Numbers.decimal 4300 false
  ofInt whole :=
    if whole = 0 then some (0, "0.0".toList) else if whole = 1 then some (1, "1.0".toList) else none
  sha256 value := (value.map (48 + · % 10) ++ replicate 64 48).take 64
  ofInt_float found := by
    split_ifs at found
    · cases found
      exact ⟨floatLiteral_bit (Or.inl rfl), congrArg (Json.float · "0.0".toList) (by decide +kernel)⟩
    · cases found
      exact ⟨floatLiteral_one, plainRuntime.one⟩
  one := plainRuntime.one

def solvedRegistration : GroupRegistration :=
  { plainRegistration 0 with
    initialContext := digitRuntime.sha256 (text "[1]")
    digests := by decide +kernel }

def solvedTurn (requestId : String) : TurnTrace :=
  ⟨1, text requestId, [1], [0], [⟨0, "0.0".toList⟩], solvedRegistration.policy, .stop, 1, text "keep"⟩

/-- An episode that is solved in one turn. -/
def solved (sampleIndex : ℕ) (requestId : String) : EpisodeResult where
  identity := (kernelPlan sampleIndex).identity
  executionState := "completed"
  verificationState := "passed"
  scoreEligible := true
  cleanupState := "verified"
  nativeOutcome := [(text "final_correct", .bool true), (text "training_turns", .list [(solvedTurn requestId).toDict])]
  nativeArtifacts := .null
  failureCategory := none
  requestState := some [(text "requests", object [(requestId, object [("state", literal "response_received"),
    ("training_evidence", literal "validated")])])]
  sourceSha256 := some "source"

def solvedCalls : List Call :=
  [.register solvedRegistration, .complete (solved 0 "first"), .complete (solved 1 "second"),
    .complete (solved 0 "first")]

def Response.trained : Response → Option ℕ
  | .produced (.group complete) => some complete.samples.length
  | _ => none

theorem solved_finite (sampleIndex : ℕ) (requestId : String) : (solved sampleIndex requestId).Finite digitRuntime := by
  unfold EpisodeResult.Finite
  repeat' first
    | exact .bool _
    | exact .str _
    | exact .float _ _
    | exact .int (by decide +kernel)
    | exact .int (show digitRuntime.ofInt 1 ≠ none by decide +kernel)
    | exact .int (show digitRuntime.ofInt 0 ≠ none by decide +kernel)
    | exact forall_mem_nil _
    | refine .object ?_
    | refine .list ?_
    | refine forall_mem_cons.mpr ⟨?_, ?_⟩

/-- The second episode completes the group, and the group of both is trained. -/
theorem again_accounts : (∀ call ∈ solvedCalls, call.Finite digitRuntime) ∧
    (∃ rest, (start 1 2).log digitRuntime solvedCalls = (.register solvedRegistration, .registered) :: rest ∧
      Collects digitRuntime solvedRegistration [] rest) ∧
    ((start 1 2).log digitRuntime solvedCalls).map (fun event => event.2.trained) = [none, none, some 2, none] := by
  have finite : ∀ call ∈ solvedCalls, call.Finite digitRuntime :=
    forall_mem_cons.mpr ⟨trivial, forall_mem_cons.mpr ⟨solved_finite 0 "first", forall_mem_cons.mpr
      ⟨solved_finite 1 "second", forall_mem_cons.mpr ⟨solved_finite 0 "first", forall_mem_nil _⟩⟩⟩⟩
  refine ⟨finite, ⟨_, rfl, (assembler_accounts digitRuntime 1 2 solvedCalls finite).1 [] _ _ rfl⟩, ?_⟩
  decide +kernel

end GroupAssembler

end TinyDSV41.Records
