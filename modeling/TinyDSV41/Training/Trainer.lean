/-
**The trainer loop `run_training`, as a client of a rollout provider.**

The learner is a sequential program: between two calls to the provider it only changes its own
variables. It is modelled by its position in the loop (`Phase`), the call it makes there
(`Trainer.command`) and what it does with the answer (`Trainer.receive`).

* `policyLag` — the admission test of a group against the learner's version.
* `Session` — one learner, one provider and the call between them. The provider serves a request,
  works on its own (`Provider.act`), and may answer a request later than it took it.
* `Session.delivered` and `Session.settled` record which group ids the provider handed out and which
  ids its accepted commits named, in order.
-/

import TinyDSV41.Lib.Transition
import TinyDSV41.Lib.Window

namespace TinyDSV41.Training

open Lib

/-- The fields of `RLConfig` the loop and the providers read, with the checks of `validate`. -/
structure RLConfig where
  maxSteps : ℕ
  groupSize : ℕ
  groupsPerStep : ℕ
  maxPolicyLag : ℕ
  queueCapacity : ℕ
  evalInterval : ℕ
  checkpointInterval : ℕ
  maxSteps_pos : 1 ≤ maxSteps
  groupSize_two : 2 ≤ groupSize
  groupsPerStep_pos : 1 ≤ groupsPerStep
  queueCapacity_pos : 1 ≤ queueCapacity

/-- The most groups a provider retains. -/
def RLConfig.bound (config : RLConfig) : ℕ := config.queueCapacity + config.groupsPerStep

/-! ### Packets -/

/-- A complete training group; every sample carries the policy version of the group. -/
structure TrainingGroup where
  groupId : ℕ
  policyVersion : ℕ
  samples : List ℕ
  uniform : ∀ version ∈ samples, version = policyVersion
deriving DecidableEq

/-- A group that is evidence but no optimizer input. -/
structure GroupExclusion where
  groupId : ℕ
  expectedSize : ℕ
  reasons : List String
deriving DecidableEq

/-- What a provider hands to the learner for one group id. -/
inductive Packet
  | trainingGroup (group : TrainingGroup)
  | exclusion (record : GroupExclusion)
deriving DecidableEq

def Packet.groupId : Packet → ℕ
  | .trainingGroup group => group.groupId
  | .exclusion record => record.groupId

/-- A provider's recovery state at a drained boundary: the cursors and the groups not yet settled. -/
structure Recovery where
  nextGroupId : ℕ
  committedHighwater : ℕ
  droppedGroups : ℕ
  pendingPackets : List Packet
deriving DecidableEq

/-! ### Calls -/

inductive Command
  | get
  | commit (consumed dropped : List ℕ)
  | pause
  | activate (version : ℕ)
  | resume
  | evaluate
deriving DecidableEq

inductive Reply
  | packet (value : Option Packet)
  | committed (committedHighwater droppedGroups : ℕ)
  | paused (recovery : Recovery)
  | acknowledged (version : ℕ)
  | evaluated
deriving DecidableEq

/-- Where the loop stands: the call it makes next or is waiting for. -/
inductive Phase
  | evaluating
  | resuming
  | collecting
  | discarding (groupId : ℕ)
  | pausing
  | committing
  | snapshotting
  | activating
  | finished
deriving DecidableEq

/-- The local variables of `run_training`. -/
structure Trainer where
  step : ℕ
  groups : List TrainingGroup
  dropped : ℕ
  phase : Phase
deriving DecidableEq

/-- The age of a group, `none` when it is too old. -/
def policyLag (learnerVersion rolloutVersion maximum : ℕ) : Except String (Option ℕ) :=
  if learnerVersion < rolloutVersion then
    .error "rollout policy version is newer than learner"
  else if learnerVersion - rolloutVersion ≤ maximum then
    .ok (some (learnerVersion - rolloutVersion))
  else
    .ok none

section

variable {learner rollout maximum : ℕ} (known : rollout ≤ learner)
include known

theorem policyLag_usable (usable : learner - rollout ≤ maximum) :
    policyLag learner rollout maximum = .ok (some (learner - rollout)) := by
  unfold policyLag
  rw [if_neg (by omega), if_pos usable]

theorem policyLag_stale (stale : ¬ learner - rollout ≤ maximum) :
    policyLag learner rollout maximum = .ok none := by
  unfold policyLag
  rw [if_neg (by omega), if_neg stale]

end

namespace Trainer

def batch (trainer : Trainer) : List ℕ := trainer.groups.map (·.groupId)

def command (trainer : Trainer) : Option Command :=
  match trainer.phase with
  | .evaluating => some .evaluate
  | .resuming => some .resume
  | .collecting => some .get
  | .discarding groupId => some (.commit [] [groupId])
  | .pausing => some .pause
  | .committing => some (.commit trainer.batch [])
  | .snapshotting => some .pause
  | .activating => some (.activate trainer.step)
  | .finished => none

/-- One packet of the inner loop: an exclusion or a stale group is dropped, another is kept. -/
def collect (config : RLConfig) (trainer : Trainer) : Packet → Except String Trainer
  | .exclusion record =>
    .ok { trainer with dropped := trainer.dropped + 1, phase := .discarding record.groupId }
  | .trainingGroup group =>
    match policyLag trainer.step group.policyVersion config.maxPolicyLag with
    | .error message => .error message
    | .ok none =>
      .ok { trainer with dropped := trainer.dropped + 1, phase := .discarding group.groupId }
    | .ok (some _) =>
      if group.samples.length ≠ config.groupSize ∨
          group.samples.any (fun version => version ≠ group.policyVersion) then
        .error "incomplete group or mixed policy versions"
      else
        .ok { trainer with
          groups := trainer.groups ++ [group]
          phase := if trainer.groups.length + 1 < config.groupsPerStep then .collecting
            else .pausing }

section

variable {config : RLConfig} {trainer : Trainer} {group : TrainingGroup}
  (known : group.policyVersion ≤ trainer.step)
include known

theorem collect_usable (complete : group.samples.length = config.groupSize)
    (usable : trainer.step - group.policyVersion ≤ config.maxPolicyLag) :
    trainer.collect config (.trainingGroup group) = .ok { trainer with
      groups := trainer.groups ++ [group]
      phase := if trainer.groups.length + 1 < config.groupsPerStep then .collecting
        else .pausing } := by
  have uniform : group.samples.any (fun version => version ≠ group.policyVersion) = false := by
    rw [List.any_eq_false]
    intro version inside
    simpa using group.uniform version inside
  unfold collect
  simp only [policyLag_usable known usable, complete, uniform, ne_eq, not_true_eq_false,
    Bool.false_eq_true, or_self, if_false]

theorem collect_stale (stale : ¬ trainer.step - group.policyVersion ≤ config.maxPolicyLag) :
    trainer.collect config (.trainingGroup group) = .ok { trainer with
      dropped := trainer.dropped + 1, phase := .discarding group.groupId } := by
  unfold collect
  simp only [policyLag_stale known stale]

end

/-- Whether the actor is evaluated before it resumes after a step. -/
def actorEvalDue (config : RLConfig) (evaluates : Bool) (step : ℕ) : Bool :=
  evaluates &&
    (step % (if config.evalInterval = 0 then config.checkpointInterval else config.evalInterval) == 0
      || step == config.maxSteps)

/-- What the loop does with the answer to its call. -/
def receive (config : RLConfig) (evaluates : Bool) (trainer : Trainer) (reply : Reply) :
    Except String Trainer :=
  match trainer.phase, reply with
  | .evaluating, .evaluated => .ok { trainer with phase := .resuming }
  | .resuming, .acknowledged _ =>
    .ok { trainer with
      groups := []
      phase := if trainer.step < config.maxSteps then .collecting else .finished }
  | .collecting, .packet none => .ok trainer
  | .collecting, .packet (some packet) => trainer.collect config packet
  | .discarding _, .committed _ _ => .ok { trainer with phase := .collecting }
  -- `train_groups` runs here, on a paused actor, and `step += 1`.
  | .pausing, .paused _ => .ok { trainer with step := trainer.step + 1, phase := .committing }
  | .committing, .committed _ _ => .ok { trainer with phase := .snapshotting }
  -- The new policy is published and the checkpoint written before the activation.
  | .snapshotting, .paused _ => .ok { trainer with phase := .activating }
  | .activating, .acknowledged version =>
    if version = trainer.step then
      .ok { trainer with
        phase := if actorEvalDue config evaluates trainer.step then .evaluating
          else .resuming }
    else
      .error "rollout provider did not acknowledge the exact published policy"
  | _, _ => .error "rollout worker failed: manager command identity differs"

end Trainer

/-! ### Learner and provider -/

/-- A rollout provider: it serves the learner's calls and acts on its own. An answer `none` means
that the request was taken and is answered by a later action. `evaluates` tells whether the learner
evaluates its policy on this provider's actor. -/
structure Provider (State Event : Type) where
  evaluates : Bool
  handle : State → Command → Except String (State × Option Reply)
  act : State → Event → Option (Except String (State × Option Reply))

/-- The call between the learner and its provider; there is never more than one. -/
inductive Link
  | idle
  | requested (command : Command)
  | waiting
  | answered (reply : Reply)
deriving DecidableEq

inductive Fate
  | consumed
  | dropped
deriving DecidableEq

/-- A learner, its provider and the history of deliveries and accepted commits. -/
structure Session (State : Type) where
  trainer : Trainer
  link : Link
  provider : State
  failure : Option String
  delivered : List ℕ
  settled : List (ℕ × Fate)

inductive SessionAction (Event : Type)
  | call
  | serve
  | internal (event : Event)
  | receive

namespace Session

variable {State Event : Type}

/-- A reply with a packet hands out its group. -/
def deliveredBy : Option Reply → List ℕ
  | some (.packet (some packet)) => [packet.groupId]
  | _ => []

/-- An accepted commit settles its groups. -/
def settledBy : Command → List (ℕ × Fate)
  | .commit consumed dropped =>
    consumed.map (fun groupId => (groupId, Fate.consumed)) ++
      dropped.map (fun groupId => (groupId, Fate.dropped))
  | _ => []

/-- The provider's side after it served a request or acted. -/
def provide (session : Session State) (command : Option Command) :
    Except String (State × Option Reply) → Session State
  | .error message => { session with failure := some message }
  | .ok (provider, reply) =>
    { session with
      provider := provider
      link := match reply, command with
        | some value, _ => .answered value
        | none, some _ => .waiting
        | none, none => session.link
      delivered := session.delivered ++ deliveredBy reply
      settled := session.settled ++ (command.map settledBy).getD [] }

/-- One step of the learner or of the provider. A failure ends the run. -/
def step (config : RLConfig) (provider : Provider State Event)
    (session : Session State) (action : SessionAction Event) : Option (Session State) :=
  if session.failure.isSome then none
  else match action, session.link with
    | .call, .idle =>
      session.trainer.command.map fun command => { session with link := .requested command }
    | .serve, .requested command =>
      some (session.provide (some command) (provider.handle session.provider command))
    | .internal event, _ =>
      (provider.act session.provider event).map (session.provide none)
    | .receive, .answered reply =>
      match session.trainer.receive config provider.evaluates reply with
      | .error message => some { session with failure := some message }
      | .ok trainer => some { session with trainer := trainer, link := .idle }
    | _, _ => none

/-- What a step does, by the kind of its action. -/
inductive Moves (config : RLConfig) (provider : Provider State Event) (session : Session State) :
    SessionAction Event → Session State → Prop
  | call {command : Command} (idle : session.link = .idle) (calls : session.trainer.command = some command) :
      Moves config provider session .call { session with link := .requested command }
  | serve {command : Command} (requested : session.link = .requested command) :
      Moves config provider session .serve
        (session.provide (some command) (provider.handle session.provider command))
  | internal {event : Event} {result : Except String (State × Option Reply)}
      (acts : provider.act session.provider event = some result) :
      Moves config provider session (.internal event) (session.provide none result)
  | receive {reply : Reply} {trainer : Trainer} (answered : session.link = .answered reply)
      (received : session.trainer.receive config provider.evaluates reply = .ok trainer) :
      Moves config provider session .receive { session with trainer := trainer, link := .idle }
  | refuse {reply : Reply} {message : String} (answered : session.link = .answered reply)
      (received : session.trainer.receive config provider.evaluates reply = .error message) :
      Moves config provider session .receive { session with failure := some message }

theorem step_moves {config : RLConfig} {provider : Provider State Event} {session next : Session State}
    {action : SessionAction Event} (stepped : step config provider session action = some next) :
    session.failure = none ∧ Moves config provider session action next := by
  unfold step at stepped
  split_ifs at stepped with failed
  refine ⟨by simpa using failed, ?_⟩
  cases action with cases link : session.link <;> rw [link] at stepped <;> try cases stepped
  | call =>
    obtain ⟨command, calls, rfl⟩ := Option.map_eq_some_iff.mp stepped
    exact .call link calls
  | serve => exact .serve link
  | internal event =>
    obtain ⟨result, acts, rfl⟩ := Option.map_eq_some_iff.mp stepped
    exact .internal acts
  | receive =>
    simp only at stepped
    split at stepped <;> rename_i received <;> cases stepped
    · rw [← link]
      exact .refuse link received
    · exact .receive link received

/-- The learner and a provider as a transition system. -/
def system (config : RLConfig) (provider : Provider State Event)
    (initial : Session State → Prop) : System (Session State) (SessionAction Event) where
  initial := initial
  step := step config provider

end Session

/-! ### What the learner trains on -/

/-- Complete groups, none newer than a policy version and none too old for it. -/
def Usable (config : RLConfig) (version : ℕ) (groups : List TrainingGroup) : Prop :=
  ∀ group ∈ groups, group.samples.length = config.groupSize ∧ group.policyVersion ≤ version ∧
    version ≤ group.policyVersion + config.maxPolicyLag

namespace Trainer

variable {config : RLConfig} {trainer next : Trainer}

/-- The variables at each place of the loop; `train_groups` takes the groups at `.pausing`. -/
def Batched (config : RLConfig) (trainer : Trainer) : Prop :=
  match trainer.phase with
  | .collecting | .discarding _ => trainer.step < config.maxSteps ∧
    trainer.groups.length < config.groupsPerStep ∧ Usable config trainer.step trainer.groups
  | .pausing => trainer.step < config.maxSteps ∧
    trainer.groups.length = config.groupsPerStep ∧ Usable config trainer.step trainer.groups
  | .committing => ∃ trained < config.maxSteps, trainer.step = trained + 1 ∧
    trainer.groups.length = config.groupsPerStep ∧ Usable config trained trainer.groups
  | .finished => trainer.step = config.maxSteps
  | _ => trainer.step ≤ config.maxSteps

theorem collect_batched {packet : Packet} (collecting : trainer.phase = .collecting)
    (batched : trainer.Batched config) (collected : trainer.collect config packet = .ok next) :
    next.Batched config := by
  rw [Batched, collecting] at batched
  cases packet with
  | exclusion record =>
    cases collected
    exact batched
  | trainingGroup group =>
    rcases lt_or_ge trainer.step group.policyVersion with newer | known
    · rw [collect, policyLag, if_pos newer] at collected
      cases collected
    by_cases near : trainer.step - group.policyVersion ≤ config.maxPolicyLag
    · simp only [collect, policyLag_usable known near] at collected
      split at collected <;> rename_i complete <;> cases collected
      obtain ⟨below, room, usable⟩ := batched
      simp only [ne_eq, not_or, not_not] at complete
      have kept : Usable config trainer.step (trainer.groups ++ [group]) :=
        List.forall_mem_append.mpr ⟨usable, by simpa using ⟨complete.1, known, by omega⟩⟩
      simp only [Batched]
      split_ifs with more <;> refine ⟨below, ?_, kept⟩ <;> rw [List.length_append, List.length_singleton]
      · exact more
      · omega
    · rw [collect_stale known near] at collected
      cases collected
      exact batched

theorem receive_batched {evaluates : Bool} {reply : Reply} (batched : trainer.Batched config)
    (received : trainer.receive config evaluates reply = .ok next) : next.Batched config := by
  unfold receive at received
  split at received
  case h_4 _ _ collecting => exact collect_batched collecting batched received
  all_goals simp only [Batched, *] at batched
  all_goals try cases received
  · exact batched
  · simp only [Batched]
    split_ifs with more
    · exact ⟨more, config.groupsPerStep_pos, by simp [Usable]⟩
    · exact batched.antisymm (not_lt.mp more)
  · simpa only [Batched, *] using batched
  · exact batched
  · exact ⟨trainer.step, batched.1, rfl, batched.2⟩
  · obtain ⟨trained, below, counted, -⟩ := batched
    exact counted.le.trans below
  · exact batched
  · split_ifs at received with same due <;> cases received <;> exact batched

end Trainer

variable {State Event : Type}

/-- Whatever the provider answers and whenever: an optimizer step takes exactly `groups_per_step` complete
groups, none newer than the learner and none older than `max_policy_lag` versions, and there are no more
than `max_steps` of them. -/
theorem trains_batched (config : RLConfig) (provider : Provider State Event) (session : Session State)
    (reached : (Session.system config provider fun start => start.trainer.step < config.maxSteps ∧
      start.trainer.groups = [] ∧ start.trainer.phase ∈ [.collecting, .evaluating]).Reachable
        System.always session) : session.trainer.Batched config := by
  refine reached.invariant (fun session => session.trainer.Batched config) ?_ ?_
  · intro start starts
    obtain ⟨below, empty, place⟩ := starts
    rw [List.mem_pair] at place
    rcases place with place | place <;> simp only [Trainer.Batched, place, empty]
    · exact ⟨below, config.groupsPerStep_pos, by simp [Usable]⟩
    · exact below.le
  · intro before action after _ stepped batched
    cases (Session.step_moves stepped).2 with
    | call | refuse => exact batched
    | serve | internal =>
      unfold Session.provide
      split <;> exact batched
    | receive answered received => exact Trainer.receive_batched batched received

/-- A learner of a single step, up to the commit of its group. -/
theorem trains_batched_single : ∃ (config : RLConfig) (session : Session Unit),
    session.trainer.phase = .committing ∧ session.trainer.Batched config := by
  have executed : ((Session.system ⟨1, 2, 1, 0, 1, 1, 1, le_rfl, le_rfl, le_rfl, le_rfl⟩
      (⟨false, fun _ command => .ok ((), some (if command = .get then
        .packet (some (.trainingGroup ⟨0, 0, [0, 0], by decide⟩)) else .paused ⟨1, 0, 0, []⟩)),
        fun _ (_ : Empty) => none⟩ : Provider Unit Empty) fun _ => True).run System.always
      ⟨⟨0, [], 0, .collecting⟩, .idle, (), none, [], []⟩
      [.call, .serve, .receive, .call, .serve, .receive]).map (·.trainer.phase) = some .committing := rfl
  obtain ⟨session, finish, same⟩ := Option.map_eq_some_iff.mp executed
  exact ⟨_, session, same, trains_batched _ _ _ (System.reachable_of_run ⟨by decide, rfl, by decide⟩ finish)⟩

end TinyDSV41.Training
