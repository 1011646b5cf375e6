/-
**`BenchmarkTrainingProvider` under the trainer loop.**

The provider runs one producer over a persistent coordinator stream. It retains complete groups,
eligible or excluded, hands them out in the order of insertion (`get`) and lets the learner settle
only a delivered oldest prefix (`commit`).

* `refines` — the provider refines the abstract one as long as neither the controller nor the stream
  fails.
* `commits_accepted` — in every run in which no excluded group reaches the learner while its batch
  holds a group, every commit is accepted and every delivered id is settled once.
-/

import TinyDSV41.Training.Session

namespace TinyDSV41.Training

open Lib Option List Bool

/-- The variables of `BenchmarkTrainingProvider`; `active` is the registration being produced. -/
structure BenchmarkTrainingProvider where
  retained : Mailbox Packet
  nextGroup : ℕ
  committed : ℕ
  dropped : ℕ
  active : Option (ℕ × ℕ)
  policy : ℕ
  paused : Bool
  changed : Bool
  /-- The pump is inside its inner loop and does not wait for `_changed`. -/
  producing : Bool
  /-- A `_pause` coroutine waits for the producer. -/
  pausing : Bool
  activationReady : Bool
  streamPaused : Bool
  streamCancelled : Bool
  error : Option String
deriving DecidableEq

/-- What the producer and the drain do between two calls. -/
inductive ProducerEvent
  | wake
  | rest
  | dispatch
  /-- The registered group is assembled: eligible, or excluded for reasons. -/
  | complete (reasons : Option (List String)) (cancelled : Bool)
  | drained
  | fail (message : String)
deriving DecidableEq

namespace BenchmarkTrainingProvider

/-- `_get`: the first undelivered row in the order of insertion. -/
def get (provider : BenchmarkTrainingProvider) :
    Except String (BenchmarkTrainingProvider × Option Reply) :=
  match provider.retained.firstUndelivered with
  | some entry =>
    .ok ({ provider with retained := provider.retained.deliver entry.1 },
      some (.packet (some entry.2.item)))
  | none =>
    if provider.error.isSome then .error "benchmark training producer failed"
    else .ok (provider, some (.packet none))

/-- Whether a retained group is an exclusion. -/
def isExcluded (provider : BenchmarkTrainingProvider) (groupId : ℕ) : Bool :=
  match provider.retained.row? groupId with
  | some ⟨.exclusion _, _⟩ => true
  | _ => false

/-- `_commit`: the ids must be a unique delivered oldest prefix, and no exclusion is consumed. -/
def commit (provider : BenchmarkTrainingProvider) (consumed dropped : List ℕ) :
    Except String (BenchmarkTrainingProvider × Option Reply) :=
  let ids := commitIds consumed dropped
  if provider.retained.isDeliveredPrefix ids = false then
    .error "commit requires a unique delivered oldest group prefix"
  else if consumed.any provider.isExcluded then
    .error "excluded groups cannot be committed as optimizer input"
  else
    let committed := match ids.getLast? with
      | some last => last + 1
      | none => provider.committed
    .ok ({ provider with
        retained := provider.retained.settle ids
        committed := committed
        dropped := provider.dropped + dropped.length
        changed := true },
      some (.committed committed (provider.dropped + dropped.length)))

/-- The first half of `_pause`: admission stops, then the coroutine waits for the producer. -/
def pause (provider : BenchmarkTrainingProvider) :
    Except String (BenchmarkTrainingProvider × Option Reply) :=
  .ok ({ provider with activationReady := false, paused := true, pausing := true }, none)

/-- `_activate` and `_activate_drained`. -/
def activate (provider : BenchmarkTrainingProvider) (version : ℕ) :
    Except String (BenchmarkTrainingProvider × Option Reply) :=
  if !provider.activationReady then
    .error "activation requires a verified controller drain receipt"
  else if !provider.paused || provider.active.isSome || !provider.streamPaused then
    .error "activation requires a proven pause and complete group drain"
  else if provider.error.isSome || provider.streamCancelled then
    .error "uncertain or quarantined execution prevents policy activation"
  else if version ≤ provider.policy then
    .error "activation requires a newer same-lineage, same-sampling policy"
  else
    .ok ({ provider with activationReady := false, policy := version }, some (.acknowledged version))

/-- `_resume`. -/
def resume (provider : BenchmarkTrainingProvider) :
    Except String (BenchmarkTrainingProvider × Option Reply) :=
  if provider.error.isSome then
    .error "provider requires reconciliation before resuming"
  else if provider.streamCancelled then
    .error "stream is closed or admission is stopped"
  else
    .ok ({ provider with
        streamPaused := false
        activationReady := false
        paused := false
        changed := true },
      some (.acknowledged provider.policy))

/-- The calls of the learner; this provider has no actor evaluation. -/
def handle (provider : BenchmarkTrainingProvider) :
    Command → Except String (BenchmarkTrainingProvider × Option Reply)
  | .get => provider.get
  | .commit consumed dropped => provider.commit consumed dropped
  | .pause => provider.pause
  | .activate version => provider.activate version
  | .resume => provider.resume
  | .evaluate => .error "benchmark provider has no actor evaluation"

/-- The recovery state of `_snapshot`. -/
def snapshot (provider : BenchmarkTrainingProvider) : Recovery where
  nextGroupId := provider.nextGroup
  committedHighwater := provider.committed
  droppedGroups := provider.dropped
  pendingPackets := provider.retained.map fun entry => entry.2.item

/-- What `GroupAssembler.complete` returns for the last sibling of a registration. -/
def receipt (config : RLConfig) (groupId version : ℕ) : Option (List String) → Packet
  | none => .trainingGroup
      ⟨groupId, version, replicate config.groupSize version, fun _ => eq_of_mem_replicate⟩
  | some reasons => .exclusion ⟨groupId, config.groupSize, reasons⟩

/-- One step of `_produce`, or the second half of `_pause`. -/
def act (config : RLConfig) (provider : BenchmarkTrainingProvider) :
    ProducerEvent → Option (Except String (BenchmarkTrainingProvider × Option Reply))
  | .wake =>
    if provider.changed && !provider.producing then
      some (.ok ({ provider with changed := false, producing := true }, none))
    else none
  | .rest =>
    if provider.producing && provider.active.isNone &&
        (provider.paused || decide (config.bound ≤ provider.retained.length)) then
      some (.ok ({ provider with producing := false }, none))
    else none
  | .dispatch =>
    if provider.producing && provider.active.isNone && !provider.paused &&
        decide (provider.retained.length < config.bound) then
      -- A paused stream refuses the group, which ends the producer.
      if provider.streamPaused then
        some (.ok ({ provider with
          error := some "stream admission is unavailable", paused := true,
          producing := false, nextGroup := provider.nextGroup + 1 }, none))
      else
        some (.ok ({ provider with
          active := some (provider.nextGroup, provider.policy)
          nextGroup := provider.nextGroup + 1 }, none))
    else none
  | .complete reasons cancelled =>
    provider.active.map fun (groupId, version) =>
      .ok ({ provider with
        active := none
        retained := provider.retained ++ [(groupId, ⟨receipt config groupId version reasons, false⟩)]
        streamCancelled := provider.streamCancelled || cancelled
        paused := provider.paused || cancelled }, none)
  | .drained =>
    if provider.pausing && provider.active.isNone then
      if provider.error.isSome then
        some (.error "benchmark producer has unresolved work")
      else if provider.streamCancelled then
        some (.error "benchmark recovery snapshot requires a proven, unquarantined boundary")
      else
        some (.ok ({ provider with
            pausing := false, streamPaused := true, activationReady := true },
          some (.paused provider.snapshot)))
    else none
  | .fail message =>
    if provider.producing then
      some (.ok ({ provider with
        error := some message, paused := true, active := none, producing := false }, none))
    else none

/-- The provider as the learner sees it. -/
def provider (config : RLConfig) : Provider BenchmarkTrainingProvider ProducerEvent where
  evaluates := false
  handle := handle
  act := act config

/-- One restored packet: a duplicate id or a group newer than the policy is refused. -/
def restorePacket (version : ℕ) (retained : Mailbox Packet) (packet : Packet) :
    Except String (Mailbox Packet) :=
  if packet.groupId ∈ retained.keys then .error "duplicate restored benchmark group"
  else match packet with
    | .trainingGroup group =>
      if version < group.policyVersion then
        .error "restored benchmark group differs from committed policy identity"
      else .ok (retained ++ [(group.groupId, ⟨packet, false⟩)])
    | .exclusion record => .ok (retained ++ [(record.groupId, ⟨packet, false⟩)])

/-- The constructor and `start`, from a recovery state and the policy of the restored step. -/
def restore (config : RLConfig) (version : ℕ) (recovery : Recovery) :
    Except String BenchmarkTrainingProvider :=
  match recovery.pendingPackets.foldlM (restorePacket version) [] with
  | .error message => .error message
  | .ok retained =>
    if config.bound < retained.length ∨ retained.sortedKeys ≠ range' recovery.committedHighwater
        (recovery.nextGroupId - recovery.committedHighwater) then
      .error "benchmark recovery mailbox has a cursor gap or exceeds capacity"
    else
      .ok
        { retained := retained
          nextGroup := recovery.nextGroupId
          committed := recovery.committedHighwater
          dropped := recovery.droppedGroups
          active := none
          policy := version
          paused := false
          changed := true
          producing := false
          pausing := false
          activationReady := false
          streamPaused := false
          streamCancelled := false
          error := none }

/-- A run starts at a step below the last, from a fresh or a restored mailbox. -/
def Starts (config : RLConfig) (origin : ℕ) (session : Session BenchmarkTrainingProvider) : Prop :=
  ∃ version recovery started, version < config.maxSteps ∧ Recoverable config version recovery ∧
    recovery.committedHighwater = origin ∧ restore config version recovery = .ok started ∧
    session = ⟨⟨version, [], recovery.droppedGroups, .collecting⟩, .idle, started, none, [], []⟩

/-- The trainer loop over this provider. -/
def system (config : RLConfig) (origin : ℕ) :
    System (Session BenchmarkTrainingProvider) (SessionAction ProducerEvent) :=
  Session.system config (provider config) (Starts config origin)

/-- No controller or producer error and no quarantine of the stream. -/
def faultless (_ : BenchmarkTrainingProvider) : ProducerEvent → Prop
  | .fail _ => False
  | .complete _ cancelled => cancelled = false
  | _ => True

instance decidableFaultless (state : BenchmarkTrainingProvider) :
    (event : ProducerEvent) → Decidable (faultless state event)
  | .fail _ => isFalse id
  | .complete _ cancelled => inferInstanceAs (Decidable (cancelled = false))
  | .wake | .rest | .dispatch | .drained => isTrue trivial

/-! ### The provider refines the abstract one -/

/-- The provider's part in the protocol. -/
def core (provider : BenchmarkTrainingProvider) : Core where
  box := provider.retained
  nextGroup := provider.nextGroup
  committed := provider.committed
  active := provider.active
  paused := provider.paused
  drained := provider.activationReady
  waiting := provider.pausing
  version := provider.policy

/-- The private invariant of a provider without faults. -/
structure Sound (provider : BenchmarkTrainingProvider) : Prop where
  noError : provider.error = none
  open_ : provider.streamCancelled = false
  stopped : provider.pausing = true → provider.paused = true
  running : provider.paused = false → provider.streamPaused = false
  receipt : provider.activationReady = true → provider.streamPaused = true

variable {config : RLConfig} {provider next : BenchmarkTrainingProvider} {handed : ℕ}
variable {reply : Option Reply}

section

variable (sound : Sound provider)
include sound

theorem get_serves (served : provider.get = .ok (next, reply)) :
    Serves provider.core .get next.core reply ∧ Sound next := by
  unfold get at served
  cases found : provider.retained.firstUndelivered with
  | some entry =>
    rw [found] at served
    cases served
    exact ⟨.getPacket found, sound.noError, sound.open_, sound.stopped, sound.running, sound.receipt⟩
  | none =>
    rw [found, sound.noError] at served
    cases served
    exact ⟨.getNothing found, sound⟩

theorem commit_serves (good : Good config provider.core handed) {consumed dropped : List ℕ}
    (served : provider.commit consumed dropped = .ok (next, reply)) :
    Serves provider.core (.commit consumed dropped) next.core reply ∧ Sound next := by
  unfold commit at served
  simp only at served
  split_ifs at served with rejected excluded
  have accepted : provider.retained.isDeliveredPrefix (commitIds consumed dropped) = true := by
    simpa using rejected
  have cursor := good.commit_cursor accepted
  cases served
  refine ⟨?_, sound.noError, sound.open_, sound.stopped, sound.running, sound.receipt⟩
  have target : ({ provider with
        retained := provider.retained.settle (commitIds consumed dropped)
        committed := match (commitIds consumed dropped).getLast? with
          | some last => last + 1
          | none => provider.committed
        dropped := provider.dropped + dropped.length
        changed := true } : BenchmarkTrainingProvider).core
      = { provider.core with
        box := provider.core.box.settle (commitIds consumed dropped)
        committed := provider.core.committed + (commitIds consumed dropped).length } := by
    rw [← cursor]
    rfl
  rw [target]
  exact .commit accepted

theorem activate_serves {version : ℕ} (served : provider.activate version = .ok (next, reply)) :
    Serves provider.core (.activate version) next.core reply ∧ Sound next := by
  unfold activate at served
  split_ifs at served with unready busy unproven old
  cases served
  have ready : provider.activationReady = true := by simpa using unready
  refine ⟨.activate ready (not_le.mp old).le, sound.noError, sound.open_,
    sound.stopped, sound.running, by simp⟩

theorem resume_serves (idle : provider.pausing = false) (served : provider.resume = .ok (next, reply)) :
    Serves provider.core .resume next.core reply ∧ Sound next := by
  unfold resume at served
  rw [if_neg (by simp [sound.noError]), if_neg (by simp [sound.open_])] at served
  cases served
  exact ⟨.resume, sound.noError, sound.open_, by simp [idle], by simp, by simp⟩

section

variable (good : Good config provider.core handed)
include good

theorem handle_serves (idle : provider.pausing = false) {command : Command}
    (served : provider.handle command = .ok (next, reply)) :
    Serves provider.core command next.core reply ∧ Sound next := by
  cases command with
  | get => exact get_serves sound served
  | commit consumed dropped => exact commit_serves sound good served
  | pause =>
    cases served
    exact ⟨.pause (by simp), sound.noError, sound.open_, by simp, by simp, by simp⟩
  | activate version => exact activate_serves sound served
  | resume => exact resume_serves sound idle served
  | evaluate => cases served

/-- A refusal has one of the abstract reasons. -/
theorem handle_refuses {command : Command} {message : String}
    (refused : provider.handle command = .error message) :
    Refuses false provider.core command := by
  cases command with
  | get =>
    simp only [handle, get] at refused
    cases found : provider.retained.firstUndelivered with
    | some entry => simp [found] at refused
    | none => simp [found, sound.noError] at refused
  | commit consumed dropped =>
    simp only [handle, commit] at refused
    split_ifs at refused with rejected excluded
    · exact .commit rejected
    · obtain ⟨groupId, named, marked⟩ := any_eq_true.mp excluded
      unfold isExcluded Mailbox.row? at marked
      cases found : provider.retained.find? (fun entry => entry.1 = groupId) with
      | none => simp [found] at marked
      | some entry =>
        have key : entry.1 = groupId := by simpa using find?_some found
        have member := mem_of_find?_eq_some found
        cases item : entry.2.item with
        | trainingGroup group =>
          obtain ⟨here, row⟩ := entry
          obtain ⟨packet, delivered⟩ := row
          subst item
          simp [found] at marked
        | exclusion record => exact .consumesExclusion named member key item
  | pause => cases refused
  | activate version =>
    simp only [handle, activate] at refused
    refine .activate ?_
    by_cases ready : provider.activationReady = true
    · obtain ⟨stopped, free⟩ := good.boundary ready
      have stopped' : provider.paused = true := stopped
      have free' : provider.active = none := free
      have paused := sound.receipt ready
      by_cases old : version ≤ provider.policy
      · exact Or.inr old
      · simp [ready, stopped', free', paused, sound.noError, sound.open_, old] at refused
    · have unready : provider.activationReady = false := by simpa using ready
      exact Or.inl unready
  | resume =>
    simp [handle, resume, sound.noError, sound.open_] at refused
  | evaluate => exact .evaluate (Or.inl rfl)

/-- What the producer does is something the abstract provider may do. -/
theorem act_acts {event : ProducerEvent} (clean : faultless provider event)
    (acted : act config provider event = some (.ok (next, reply))) :
    Acts config provider.core next.core reply ∧ Sound next := by
  cases event with
  | wake | rest =>
    simp only [act] at acted
    split_ifs at acted with ready
    cases acted
    exact ⟨.idle, sound.noError, sound.open_, sound.stopped, sound.running, sound.receipt⟩
  | dispatch =>
    simp only [act] at acted
    split_ifs at acted with ready paused
    · simp only [and_eq_true, not_eq_true'] at ready
      have := sound.running ready.1.2
      simp [paused] at this
    · simp only [and_eq_true, not_eq_true', decide_eq_true_eq, isNone_iff_eq_none]
        at ready
      obtain ⟨⟨⟨-, free⟩, running⟩, room⟩ := ready
      have unready : provider.activationReady = false := by
        rw [eq_false_iff]
        intro ready
        exact paused (sound.receipt ready)
      cases acted
      refine ⟨?_, sound.noError, sound.open_, sound.stopped, sound.running, sound.receipt⟩
      have step : Acts config provider.core _ none := .dispatch free running room
      simpa [core, unready] using step
  | complete reasons cancelled =>
    have intact : cancelled = false := clean
    subst intact
    obtain ⟨⟨groupId, version⟩, active, same⟩ := map_eq_some_iff.mp acted
    cases same
    refine ⟨?_, sound.noError, by simp [sound.open_], by simpa using sound.stopped,
      by simpa using sound.running, sound.receipt⟩
    have step : Acts config provider.core { provider.core with
          active := none
          box := provider.core.box ++ [(groupId, ⟨receipt config groupId version reasons, false⟩)]
          drained := provider.activationReady } none := .complete active ?_ ?_ ?_
    · simpa [core] using step
    · cases reasons <;> rfl
    · intro group isGroup
      cases reasons with
      | none =>
        cases isGroup
        exact ⟨rfl, length_replicate⟩
      | some reasons => cases isGroup
    · intro ready
      have free : provider.active = none := (good.boundary ready).2
      simp [active] at free
  | drained =>
    simp only [act, sound.noError, sound.open_, isSome_none, false_eq_true, if_false] at acted
    split_ifs at acted with ready
    simp only [and_eq_true, isNone_iff_eq_none] at ready
    cases acted
    refine ⟨.drain (sound.stopped ready.1) ready.2 ready.1, rfl, rfl, by simp, ?_, by simp⟩
    intro running
    exact absurd (running.symm.trans (sound.stopped ready.1)) (by simp)
  | fail message => exact clean.elim

end

theorem act_steady {event : ProducerEvent} {message : String} (clean : faultless provider event) :
    act config provider event ≠ some (.error message) := by
  intro raised
  cases event with
  | wake | rest =>
    simp only [act] at raised
    split_ifs at raised
    cases raised
  | dispatch =>
    simp only [act] at raised
    split_ifs at raised <;> cases raised
  | complete reasons cancelled =>
    obtain ⟨_, _, same⟩ := map_eq_some_iff.mp raised
    cases same
  | drained =>
    simp only [act, sound.noError, sound.open_, isSome_none, false_eq_true, if_false]
      at raised
    split_ifs at raised
    cases raised
  | fail message => exact clean.elim

end

theorem refines (config : RLConfig) :
    Refines config (BenchmarkTrainingProvider.provider config) core Sound faultless where
  serves sound good idle served := handle_serves sound good idle served
  refuses sound good _ refused := handle_refuses sound good refused
  acts sound good clean acted := act_acts sound good clean acted
  steady sound _ clean := act_steady sound clean

/-! ### Starting -/

/-- A recoverable state restores to its own mailbox. -/
theorem restore_eq {config : RLConfig} {version : ℕ} {recovery : Recovery}
    (recoverable : Recoverable config version recovery) :
    ∃ started, restore config version recovery = .ok started ∧
      started.core = ⟨recovery.box, recovery.nextGroupId, recovery.committedHighwater, none, false,
        false, false, version⟩ ∧ Sound started := by
  have folded : recovery.pendingPackets.foldlM (restorePacket version) [] = .ok recovery.box := by
    refine recoverable.restored ?_
    intro packet mem filled fresh
    unfold restorePacket
    rw [if_neg fresh]
    cases packet with
    | trainingGroup group =>
      have known := (recoverable.sampled _ mem group rfl).1
      show (if version < group.policyVersion then _ else _) = _
      rw [if_neg (not_lt.mpr known)]
      rfl
    | exclusion record => rfl
  refine ⟨
    { retained := recovery.box
      nextGroup := recovery.nextGroupId
      committed := recovery.committedHighwater
      dropped := recovery.droppedGroups
      active := none
      policy := version
      paused := false
      changed := true
      producing := false
      pausing := false
      activationReady := false
      streamPaused := false
      streamCancelled := false
      error := none }, ?_, rfl, rfl, rfl, by simp, by simp, by simp⟩
  unfold restore
  rw [folded]
  simp only
  rw [if_neg recoverable.fits]

theorem starts_inStep {config : RLConfig} {origin : ℕ}
    {session : Session BenchmarkTrainingProvider} (starts : Starts config origin session) :
    InStep config false core Sound origin session := by
  obtain ⟨version, recovery, started, below, recoverable, rfl, restored, rfl⟩ := starts
  obtain ⟨same, again, shape, sound⟩ := restore_eq recoverable
  rw [restored] at again
  cases again
  have good : Good config started.core recovery.committedHighwater := recoverable.good (by rw [shape]) (by rw [shape])
    (by rw [shape]) (by rw [shape]) (by rw [shape]; exact fun drained => by cases drained)
    (by rw [shape])
  refine ⟨sound, recovery.committedHighwater, good, ?_, ?_, ?_, ?_, ?_, rfl, ?_⟩
  · rw [shape]
  · simp
  · rw [shape]
    simp
  · rw [shape]
    simp [Session.inHand, Trainer.batch]
  · rw [shape]
    simp
  · rw [shape]
    exact ⟨trivial, rfl, config.groupsPerStep_pos, by simp⟩

/-! ### Runs -/

/-- Commits are accepted and account for the deliveries: the session has not failed, every delivered
id is named by exactly one accepted commit or is still in the learner's hands, and nothing is left
there once the learner has finished. -/
def Settles (session : Session BenchmarkTrainingProvider) : Prop :=
  session.failure = none ∧ session.delivered = session.settled.map Prod.fst ++ session.inHand ∧
    session.delivered.Nodup ∧
    (session.trainer.phase = .finished → session.inHand = [])

/-- In a run without controller error or quarantine, in which no excluded group reaches the learner
while its batch holds a group, every commit is accepted. -/
theorem commits_accepted (config : RLConfig) (origin : ℕ) (session : Session BenchmarkTrainingProvider)
    (reached : (system config origin).Reachable (mindful faultless) session) : Settles session := by
  obtain ⟨-, handed, sync⟩ := sync_run (refines config) (fun _ => starts_inStep) reached
  refine ⟨sync.sound, sync.delivered_eq, ?_, ?_⟩
  · rw [sync.delivered]
    exact nodup_range'
  · intro finished
    rw [Session.inHand, finished]

/-- A fresh run: an empty mailbox under policy version 0. -/
def freshSession : Session BenchmarkTrainingProvider where
  trainer := ⟨0, [], 0, .collecting⟩
  link := .idle
  provider := ⟨[], 0, 0, 0, none, 0, false, true, false, false, false, false, false, none⟩
  failure := none
  delivered := []
  settled := []

/-- One step over batches of two groups. -/
def pairConfig : RLConfig where
  maxSteps := 1
  groupSize := 2
  groupsPerStep := 2
  maxPolicyLag := 0
  queueCapacity := 1
  evalInterval := 0
  checkpointInterval := 1
  maxSteps_pos := Nat.one_pos
  groupSize_two := Nat.one_lt_two
  groupsPerStep_pos := Nat.two_pos
  queueCapacity_pos := Nat.one_pos

theorem pairConfig_starts : Starts pairConfig 0 freshSession :=
  ⟨0, ⟨0, 0, 0, []⟩, freshSession.provider, by decide, Recoverable.fresh pairConfig 0 0, rfl, rfl, rfl⟩

/-- An excluded first group, then two eligible ones. -/
def mindfulRun : List (SessionAction ProducerEvent) :=
  [.internal .wake, .internal .dispatch, .internal (.complete (some ["no reward"]) false),
    .call, .serve, .receive, .call, .serve, .receive,
    .internal .dispatch, .internal (.complete none false), .call, .serve, .receive,
    .internal .dispatch, .internal (.complete none false), .call, .serve, .receive,
    .call, .serve, .internal .drained, .receive, .call, .serve, .receive,
    .call, .serve, .internal .drained, .receive, .call, .serve, .receive,
    .call, .serve, .receive]

theorem commits_accepted_pair : ∃ session, (system pairConfig 0).Reachable (mindful faultless) session ∧
      session.trainer.phase = .finished ∧
      session.settled = [(0, .dropped), (1, .consumed), (2, .consumed)] ∧ Settles session := by
  have executed : ((system pairConfig 0).run (mindful faultless) freshSession mindfulRun).map
      (fun session => (session.trainer.phase, session.settled))
      = some (.finished, [(0, .dropped), (1, .consumed), (2, .consumed)]) := by rfl
  obtain ⟨session, finish, shape⟩ := map_eq_some_iff.mp executed
  obtain ⟨phase, settled⟩ := Prod.mk.inj shape
  have reached := System.reachable_of_run pairConfig_starts finish
  exact ⟨session, reached, phase, settled, commits_accepted pairConfig 0 session reached⟩

/-- An eligible group, then an excluded one for the same step. -/
def unmindfulRun : List (SessionAction ProducerEvent) :=
  [.internal .wake, .internal .dispatch, .internal (.complete none false), .call, .serve, .receive,
    .internal .dispatch, .internal (.complete (some ["no reward"]) false), .call, .serve, .receive,
    .call, .serve]

/-- Without the condition a run stops: the learner drops the excluded group before it has committed
the older eligible one. -/
theorem exclusion_stops_run : ¬ ∀ (config : RLConfig) (origin : ℕ)
    (session : Session BenchmarkTrainingProvider),
    (system config origin).Reachable (within faultless) session → Settles session := by
  intro all
  have executed : ((system pairConfig 0).run (within faultless) freshSession unmindfulRun).map
      (·.failure) = some (some "commit requires a unique delivered oldest group prefix") := by rfl
  obtain ⟨session, finish, failed⟩ := map_eq_some_iff.mp executed
  have reached := System.reachable_of_run pairConfig_starts finish
  have sound := (all pairConfig 0 session reached).1
  rw [failed] at sound
  cases sound

end BenchmarkTrainingProvider

end TinyDSV41.Training
