/-
**`RolloutManager`, the worker loop `_serve`, under the trainer loop.**

The manager's child process retains complete groups of one sampling backend, dispatches the next
group while the mailbox and the queue of undelivered groups have room, and answers the learner's
calls between two turns of its loop.

* `refines` — the manager refines the abstract provider as long as every sampled group succeeds and
  the backend's controls do not fail.
* `coordinated` — in every such run, whatever the interleaving: the retained ids and the active one
  form the interval of the two cursors, the mailbox keeps its bound, every commit is accepted, groups
  are delivered and settled once and in order, and a waiting learner never meets a manager that is
  idle and may not dispatch.
-/

import TinyDSV41.Training.Session

namespace TinyDSV41.Training

open List Lib Option Session

/-- The settings of the manager's child that its control flow reads. -/
structure ManagerSettings where
  config : RLConfig
  /-- The sampling engine is vLLM, whose backend can evaluate. -/
  vllm : Bool
  /-- There are evaluation records. -/
  evalRecords : Bool

/-- Whether the learner evaluates on the actor; the manager then starts paused. -/
def ManagerSettings.startPaused (settings : ManagerSettings) : Bool :=
  settings.vllm && settings.evalRecords

/-- The variables of `_serve`; `active` is the dispatched group with the policy version it samples
under, `ack` the version the backend has loaded. -/
structure RolloutManager where
  retained : Mailbox Packet
  nextGroup : ℕ
  committed : ℕ
  dropped : ℕ
  active : Option (ℕ × ℕ)
  paused : Bool
  /-- A pause request waits for the drained boundary. -/
  pauseWaiting : Bool
  streamPaused : Bool
  ack : ℕ
  /-- A fault of the backend, raised by its next control call. -/
  fault : Option String
deriving DecidableEq

/-- What a turn of the worker loop does besides reading requests. -/
inductive WorkerEvent
  /-- The active task is done; `eligible` when its one result is score eligible and safe. -/
  | complete (eligible : Bool)
  /-- The branch for a paused manager without an active group. -/
  | drain
  | dispatch
  | backendFails (message : String)
deriving DecidableEq

namespace RolloutManager

/-- `get`: the oldest undelivered row by group id. -/
def get (manager : RolloutManager) : RolloutManager × Option Reply :=
  match manager.retained.sorted.firstUndelivered with
  | none => (manager, some (.packet none))
  | some entry =>
    ({ manager with retained := manager.retained.deliver entry.1 }, some (.packet (some entry.2.item)))

/-- `commit`: the ids must be the oldest retained ones, without duplicates and delivered. -/
def commit (manager : RolloutManager) (consumed rejected : List ℕ) :
    Except String (RolloutManager × Option Reply) :=
  let ids := commitIds consumed rejected
  if manager.retained.isDeliveredPrefix ids = false then
    .error "commit requires the delivered oldest group prefix without duplicates"
  else
    let committed := match ids.getLast? with
      | some last => last + 1
      | none => manager.committed
    .ok ({ manager with
        retained := manager.retained.settle ids
        committed := committed
        dropped := manager.dropped + rejected.length },
      some (.committed committed (manager.dropped + rejected.length)))

def control {Result : Type} (manager : RolloutManager) (result : Except String Result) :
    Except String Result :=
  match manager.fault with
  | some message => .error message
  | none => result

/-- `activate`: the backend loads the artifact unless that would roll the policy back. -/
def activate (manager : RolloutManager) (version : ℕ) : Except String (RolloutManager × Option Reply) :=
  if !manager.paused || manager.active.isSome then
    .error "activation requires pause() to finish draining"
  else
    manager.control (if version < manager.ack then
        .error "activation cannot roll back or replace a policy version"
      else .ok ({ manager with ack := version }, some (.acknowledged version)))

def handle (settings : ManagerSettings) (manager : RolloutManager) :
    Command → Except String (RolloutManager × Option Reply)
  | .get => .ok manager.get
  | .pause => .ok ({ manager with paused := true, pauseWaiting := true }, none)
  | .commit consumed rejected => manager.commit consumed rejected
  | .activate version => manager.activate version
  | .evaluate =>
    if !manager.paused || manager.active.isSome || !settings.vllm then
      .error "actor evaluation requires a drained paused vLLM manager"
    else manager.control (.ok (manager, some .evaluated))
  | .resume =>
    manager.control (.ok ({ manager with streamPaused := false, paused := false },
      some (.acknowledged manager.ack)))

/-- `snapshot`. -/
def snapshot (manager : RolloutManager) : Recovery where
  nextGroupId := manager.nextGroup
  committedHighwater := manager.committed
  droppedGroups := manager.dropped
  pendingPackets := manager.retained.sorted.map fun entry => entry.2.item

/-- The number of retained groups the learner has not been handed. -/
def queued (manager : RolloutManager) : ℕ :=
  manager.retained.countP fun entry => !entry.2.delivered

variable (config : RLConfig)

theorem packet_versions (version : ℕ) :
    ∀ x ∈ replicate config.groupSize version, x = version :=
  fun _ => eq_of_mem_replicate

/-- What `take_packet` returns for a group sampled under a version. -/
def packet (config : RLConfig) (groupId version : ℕ) : Packet :=
  .trainingGroup ⟨groupId, version, replicate config.groupSize version, packet_versions config version⟩

def act (settings : ManagerSettings) (manager : RolloutManager) :
    WorkerEvent → Option (Except String (RolloutManager × Option Reply))
  | .complete eligible =>
    manager.active.map fun (groupId, version) =>
      if eligible then
        .ok ({ manager with
          retained := manager.retained ++ [(groupId, ⟨packet settings.config groupId version, false⟩)]
          active := none }, none)
      else .error "manager group failed"
  | .drain =>
    if manager.paused && manager.active.isNone then
      if manager.pauseWaiting then
        some (manager.control (.ok ({ manager with streamPaused := true, pauseWaiting := false },
            some (.paused manager.snapshot))))
      else some (.ok ({ manager with streamPaused := true }, none))
    else none
  | .dispatch =>
    if !manager.paused && manager.active.isNone &&
        decide (manager.retained.length < settings.config.bound) &&
        decide (manager.queued < settings.config.queueCapacity) then
      -- The task of a group on a paused stream fails, and with it the manager.
      if manager.streamPaused then some (.error "stream admission is unavailable")
      else
        some (.ok ({ manager with
          nextGroup := manager.nextGroup + 1
          active := some (manager.nextGroup, manager.ack) }, none))
    else none
  | .backendFails message => some (.ok ({ manager with fault := some message }, none))

/-- The manager as the learner sees it. -/
def provider (settings : ManagerSettings) : Provider RolloutManager WorkerEvent where
  evaluates := settings.startPaused
  handle := handle settings
  act := act settings

/-- One restored packet; an excluded group cannot be decoded as a training trace. -/
def restorePacket (recovery : Recovery) (retained : Mailbox Packet) :
    Packet → Except String (Mailbox Packet)
  | .exclusion _ => .error "restored training trace is missing"
  | .trainingGroup group =>
    if group.groupId ∈ retained.keys ∨ ¬ (recovery.committedHighwater ≤ group.groupId ∧
        group.groupId < recovery.nextGroupId) then
      .error "invalid or duplicate restored group cursor"
    else .ok (retained ++ [(group.groupId, ⟨.trainingGroup group, false⟩)])

/-- The start of `_serve` from a recovery state and the policy of the restored step. -/
def restore (settings : ManagerSettings) (version : ℕ) (recovery : Recovery) :
    Except String RolloutManager :=
  match recovery.pendingPackets.foldlM (restorePacket recovery) [] with
  | .error message => .error message
  | .ok retained =>
    if settings.config.bound < retained.length ∨ retained.sortedKeys ≠ range' recovery.committedHighwater
          (recovery.nextGroupId - recovery.committedHighwater) then
      .error "restored mailbox exceeds capacity or has a cursor gap"
    else
      .ok
        { retained := retained
          nextGroup := recovery.nextGroupId
          committed := recovery.committedHighwater
          dropped := recovery.droppedGroups
          active := none
          paused := settings.startPaused
          pauseWaiting := false
          streamPaused := settings.startPaused
          ack := version
          fault := none }

/-- A run starts at a step below the last, from a fresh or a restored mailbox of training groups. -/
def Starts (settings : ManagerSettings) (origin : ℕ) (session : Session RolloutManager) : Prop :=
  ∃ version recovery started, version < settings.config.maxSteps ∧
    Recoverable settings.config version recovery ∧
    (∀ packet ∈ recovery.pendingPackets, ∃ group, packet = .trainingGroup group) ∧
    recovery.committedHighwater = origin ∧ restore settings version recovery = .ok started ∧
    session = ⟨⟨version, [], recovery.droppedGroups,
      if settings.startPaused then .evaluating else .collecting⟩, .idle, started, none, [], []⟩

def system (settings : ManagerSettings) (origin : ℕ) :
    System (Session RolloutManager) (SessionAction WorkerEvent) :=
  Session.system settings.config (provider settings) (Starts settings origin)

/-- Every sampled group succeeds and the backend has no fault. -/
def successful (_ : RolloutManager) : WorkerEvent → Prop
  | .complete eligible => eligible = true
  | .backendFails _ => False
  | .drain | .dispatch => True

instance decidableSuccessful (state : RolloutManager) :
    (event : WorkerEvent) → Decidable (successful state event)
  | .complete eligible => inferInstanceAs (Decidable (eligible = true))
  | .backendFails _ => isFalse id
  | .drain | .dispatch => isTrue trivial

/-! ### The manager refines the abstract provider -/

/-- The manager's part in the protocol; it is at a boundary whenever it is paused without a group. -/
def core (manager : RolloutManager) : Core where
  box := manager.retained
  nextGroup := manager.nextGroup
  committed := manager.committed
  active := manager.active
  paused := manager.paused
  drained := manager.paused && manager.active.isNone
  waiting := manager.pauseWaiting
  version := manager.ack

/-- The private invariant of a manager without faults. -/
structure Sound (manager : RolloutManager) : Prop where
  noFault : manager.fault = none
  running : manager.paused = false → manager.streamPaused = false
  regular : ∀ entry ∈ manager.retained, ∃ group, entry.2.item = .trainingGroup group

variable {settings : ManagerSettings} {manager next : RolloutManager} {handed : ℕ}

theorem get_serves (sound : Sound manager) (good : Good settings.config manager.core handed) :
    Serves manager.core .get manager.get.1.core manager.get.2 ∧ Sound manager.get.1 := by
  unfold get
  rw [show manager.retained.sorted = manager.retained from good.window.sorted_eq]
  cases found : manager.retained.firstUndelivered with
  | none => exact ⟨.getNothing found, sound⟩
  | some entry =>
    refine ⟨.getPacket found, sound.noFault, sound.running, ?_⟩
    intro row mem
    obtain ⟨source, inside, rfl⟩ := mem_map.mp mem
    obtain ⟨group, item⟩ := sound.regular source inside
    refine ⟨group, ?_⟩
    split_ifs <;> exact item

variable {reply : Option Reply}

section

variable (sound : Sound manager)
include sound

theorem commit_serves (good : Good settings.config manager.core handed) {consumed rejected : List ℕ}
    (served : manager.commit consumed rejected = .ok (next, reply)) :
    Serves manager.core (.commit consumed rejected) next.core reply ∧ Sound next := by
  unfold commit at served
  simp only at served
  split_ifs at served with refused
  have accepted : manager.retained.isDeliveredPrefix (commitIds consumed rejected) = true := by
    simpa using refused
  have cursor := good.commit_cursor accepted
  cases served
  refine ⟨?_, sound.noFault, sound.running, fun entry mem =>
    sound.regular entry (mem_of_mem_filter mem)⟩
  have target : ({ manager with
        retained := manager.retained.settle (commitIds consumed rejected)
        committed := match (commitIds consumed rejected).getLast? with
          | some last => last + 1
          | none => manager.committed
        dropped := manager.dropped + rejected.length } : RolloutManager).core
      = { manager.core with
        box := manager.core.box.settle (commitIds consumed rejected)
        committed := manager.core.committed + (commitIds consumed rejected).length } := by
    rw [← cursor]
    rfl
  rw [target]
  exact .commit accepted

theorem activate_serves {version : ℕ} (served : manager.activate version = .ok (next, reply)) :
    Serves manager.core (.activate version) next.core reply ∧ Sound next := by
  unfold activate control at served
  rw [sound.noFault] at served
  split_ifs at served with busy older
  simp only [Bool.or_eq_true, Bool.not_eq_true', not_or, Bool.not_eq_false, Bool.not_eq_true,
    isSome_eq_false_iff] at busy
  cases served
  have ready : manager.core.drained = true := by simp [core, busy.1, busy.2]
  exact ⟨.activate ready (not_lt.mp older), rfl, sound.running, sound.regular⟩

theorem handle_serves (good : Good settings.config manager.core handed) {command : Command}
    (served : handle settings manager command = .ok (next, reply)) :
    Serves manager.core command next.core reply ∧ Sound next := by
  cases command with
  | get =>
    have same : manager.get = (next, reply) := Except.ok.inj served
    simpa [same] using get_serves sound good
  | commit consumed rejected => exact commit_serves sound good served
  | pause =>
    cases served
    refine ⟨.pause ?_, sound.noFault, by simp, sound.regular⟩
    intro free
    have free' : manager.active.isNone = true := free
    exact isNone_iff_eq_none.mp free'
  | activate version => exact activate_serves sound served
  | resume =>
    simp only [handle, control, sound.noFault] at served
    cases served
    exact ⟨.resume, rfl, by simp, sound.regular⟩
  | evaluate =>
    simp only [handle, control, sound.noFault] at served
    split_ifs at served with busy
    cases served
    exact ⟨.evaluate, sound⟩

/-- A refusal has one of the abstract reasons. -/
theorem handle_refuses {command : Command} {message : String}
    (refused : handle settings manager command = .error message) :
    Refuses settings.startPaused manager.core command := by
  cases command with
  | get | pause => cases refused
  | commit consumed rejected =>
    simp only [handle, commit] at refused
    split_ifs at refused with rejected
    exact .commit rejected
  | activate version =>
    simp only [handle, activate, control, sound.noFault] at refused
    split_ifs at refused with busy older
    · refine .activate (Or.inl ?_)
      show (manager.paused && manager.active.isNone) = false
      cases paused : manager.paused with
      | false => rfl
      | true =>
        cases active : manager.active with
        | none => simp [paused, active] at busy
        | some production => rfl
    · exact .activate (Or.inr older.le)
  | resume =>
    simp only [handle, control, sound.noFault] at refused
    cases refused
  | evaluate =>
    simp only [handle, control, sound.noFault] at refused
    split_ifs at refused with busy
    refine .evaluate ?_
    rcases Bool.or_eq_true_iff.mp busy with undrained | engine
    · rcases Bool.or_eq_true_iff.mp undrained with running | producing
      · have running' : manager.paused = false := by simpa using running
        exact Or.inr (Or.inl running')
      · refine Or.inr (Or.inr ?_)
        intro free
        have free' : manager.active = none := free
        simp [free'] at producing
    · refine Or.inl ?_
      have other : settings.vllm = false := by simpa using engine
      simp [ManagerSettings.startPaused, other]

/-- What the worker loop does is something the abstract provider may do. -/
theorem act_acts (good : Good settings.config manager.core handed) {event : WorkerEvent}
    (clean : successful manager event) (acted : act settings manager event = some (.ok (next, reply))) :
    Acts settings.config manager.core next.core reply ∧ Sound next := by
  cases event with
  | complete eligible =>
    have succeeded : eligible = true := clean
    subst succeeded
    obtain ⟨⟨groupId, version⟩, active, same⟩ := map_eq_some_iff.mp acted
    cases same
    refine ⟨?_, sound.noFault, sound.running, ?_⟩
    · have step : Acts settings.config manager.core { manager.core with
            active := none
            box := manager.core.box ++ [(groupId, ⟨packet settings.config groupId version, false⟩)]
            drained := manager.paused } none := .complete active rfl ?_ fun stopped => stopped
      · simpa [core] using step
      · intro group isGroup
        cases isGroup
        exact ⟨rfl, length_replicate⟩
    · intro entry mem
      rcases mem_append.mp mem with old | new
      · exact sound.regular entry old
      · rw [mem_singleton.mp new]
        exact ⟨_, rfl⟩
  | drain =>
    simp only [act, control, sound.noFault] at acted
    split_ifs at acted with boundary waiting
    all_goals simp only [Bool.and_eq_true, isNone_iff_eq_none] at boundary
    · obtain ⟨stopped, free⟩ := boundary
      cases acted
      refine ⟨?_, rfl, by simp [stopped], sound.regular⟩
      have step : Acts settings.config manager.core _
          (some (.paused (manager.core.recovery manager.dropped))) := .drain stopped free waiting
      have snap : manager.snapshot = manager.core.recovery manager.dropped := by
        unfold snapshot Core.recovery
        rw [show manager.retained.sorted = manager.retained from good.window.sorted_eq]
        rfl
      rw [snap]
      simpa [core, stopped, free] using step
    · cases acted
      exact ⟨.idle, rfl, by simp [boundary.1], sound.regular⟩
  | dispatch =>
    simp only [act] at acted
    split_ifs at acted with ready streamPaused
    · cases acted
    · simp only [Bool.and_eq_true, Bool.not_eq_true', decide_eq_true_eq,
        isNone_iff_eq_none] at ready
      obtain ⟨⟨⟨running, free⟩, room⟩, -⟩ := ready
      cases acted
      refine ⟨?_, sound.noFault, sound.running, sound.regular⟩
      have step : Acts settings.config manager.core _ none := .dispatch free running room
      simpa [core, running] using step
  | backendFails message => exact clean.elim

theorem act_steady {event : WorkerEvent} {message : String} (clean : successful manager event) :
    act settings manager event ≠ some (.error message) := by
  intro raised
  cases event with
  | complete eligible =>
    have succeeded : eligible = true := clean
    subst succeeded
    obtain ⟨_, _, same⟩ := map_eq_some_iff.mp raised
    cases same
  | drain =>
    simp only [act, control, sound.noFault] at raised
    split_ifs at raised <;> cases raised
  | dispatch =>
    simp only [act] at raised
    split_ifs at raised with ready streamPaused
    · simp only [Bool.and_eq_true, Bool.not_eq_true'] at ready
      have := sound.running ready.1.1.1
      simp [streamPaused] at this
    · cases raised
  | backendFails message => exact clean.elim

end

theorem refines (settings : ManagerSettings) :
    Refines settings.config (RolloutManager.provider settings) core Sound successful where
  serves sound good _ served := handle_serves sound good served
  refuses sound _ _ refused := handle_refuses sound refused
  acts sound good clean acted := act_acts sound good clean acted
  steady sound _ clean := act_steady sound clean

/-! ### Starting -/

/-- A recoverable mailbox of training groups restores to itself. -/
theorem restore_eq {settings : ManagerSettings} {version : ℕ} {recovery : Recovery}
    (recoverable : Recoverable settings.config version recovery)
    (traces : ∀ packet ∈ recovery.pendingPackets, ∃ group, packet = .trainingGroup group) :
    ∃ started, restore settings version recovery = .ok started ∧
      started.core = ⟨recovery.box, recovery.nextGroupId, recovery.committedHighwater, none,
        settings.startPaused, settings.startPaused, false, version⟩ ∧ Sound started := by
  have folded : recovery.pendingPackets.foldlM (restorePacket recovery) [] = .ok recovery.box := by
    refine recoverable.restored ?_
    intro packet mem filled fresh
    obtain ⟨group, rfl⟩ := traces packet mem
    have inside : group.groupId ∈ recovery.pendingPackets.map Packet.groupId :=
      mem_map_of_mem (f := Packet.groupId) mem
    rw [recoverable.ids, mem_range'_1] at inside
    show (if group.groupId ∈ filled.keys ∨ _ then _ else _) = _
    rw [if_neg]
    · rfl
    · rw [not_or, not_not]
      exact ⟨fresh, by omega⟩
  refine ⟨
    { retained := recovery.box
      nextGroup := recovery.nextGroupId
      committed := recovery.committedHighwater
      dropped := recovery.droppedGroups
      active := none
      paused := settings.startPaused
      pauseWaiting := false
      streamPaused := settings.startPaused
      ack := version
      fault := none }, ?_, by simp [core], rfl, fun running => running, ?_⟩
  · unfold restore
    rw [folded]
    simp only
    rw [if_neg recoverable.fits]
  · intro entry mem
    obtain ⟨packet, inside, rfl⟩ := mem_map.mp mem
    exact traces packet inside

variable {session : Session RolloutManager}

theorem starts_inStep {settings : ManagerSettings} {origin : ℕ}
    (starts : Starts settings origin session) :
    InStep settings.config settings.startPaused core Sound origin session := by
  obtain ⟨version, recovery, started, below, recoverable, traces, rfl, restored, rfl⟩ := starts
  obtain ⟨same, again, shape, sound⟩ := restore_eq recoverable traces
  rw [restored] at again
  cases again
  have good : Good settings.config started.core recovery.committedHighwater := recoverable.good
    (by rw [shape]) (by rw [shape])
    (by rw [shape]) (by rw [shape]) (by rw [shape]; exact fun paused => paused) (by rw [shape])
  refine ⟨sound, recovery.committedHighwater, good, ?_, ?_, ?_, ?_, ?_, rfl, ?_⟩
  · rw [shape]
  · simp
  · rw [shape]
    simp
  · rw [shape]
    unfold inHand
    cases settings.startPaused <;> simp [Trainer.batch]
  · rw [shape]
    simp
  · rw [shape]
    cases paused : settings.startPaused with
    | false => exact ⟨trivial, rfl, settings.config.groupsPerStep_pos, by simp⟩
    | true => exact ⟨trivial, rfl, rfl, rfl, rfl⟩

/-! ### Runs -/

def activeIds (manager : RolloutManager) : List ℕ := (manager.active.map Prod.fst).toList

/-- The learner and the manager are coordinated: the cursors delimit what is retained or active, the
mailbox is bounded, no call has failed, groups are delivered and settled in order and only once, and
a waiting learner finds an idle manager ready to dispatch. -/
structure Coordinated (settings : ManagerSettings) (origin : ℕ) (session : Session RolloutManager) :
    Prop where
  interval : session.provider.committed ≤ session.provider.nextGroup ∧
    session.provider.retained.keys ++ session.provider.activeIds = range' session.provider.committed
          (session.provider.nextGroup - session.provider.committed)
  bounded : session.provider.retained.length
    ≤ settings.config.queueCapacity + settings.config.groupsPerStep
  accepted : session.failure = none
  delivered : session.delivered = range' origin session.delivered.length
  settled : session.settled.map Prod.fst = range' origin session.settled.length
  settledDelivered : session.settled.map Prod.fst <+: session.delivered
  finished : session.trainer.phase = .finished → session.settled.map Prod.fst = session.delivered
  ready : session.trainer.phase = .collecting →
    session.trainer.groups.length < settings.config.groupsPerStep ∧
    (session.provider.paused = false → session.provider.active = none →
      (∀ entry ∈ session.provider.retained, entry.2.delivered = true) →
      ∃ next, (system settings origin).step session (.internal .dispatch) = some next ∧
        next.provider.active = some (session.provider.nextGroup, session.provider.ack))

theorem retained_lt {origin : ℕ}
    (sync : Sync config settings.startPaused session session.provider.core origin handed)
    (phase : session.trainer.phase = .collecting)
    (caught : session.provider.core.box.firstUndelivered = none) :
    session.provider.retained.length < config.bound ∧
      session.trainer.groups.length < config.groupsPerStep := by
  have place := sync.place
  simp only [Place, phase] at place
  obtain ⟨-, -, room, -⟩ := place
  have everything := sync.good.window.firstUndelivered_eq_none_iff.mp caught
  have size : session.provider.retained.length
      = session.provider.core.filled - session.provider.core.committed :=
    sync.good.window.length_eq
  have held : session.inHand.length = handed - session.provider.core.committed := by
    rw [sync.inHand, length_range']
  have few : session.inHand.length ≤ session.trainer.groups.length + 1 := by
    unfold inHand
    split <;> simp [Trainer.batch]
  have capacity := config.queueCapacity_pos
  refine ⟨?_, room⟩
  unfold RLConfig.bound
  omega

/-- Over successful groups, every interleaving of the worker loop and the trainer loop stays
coordinated. -/
theorem coordinated (settings : ManagerSettings) (origin : ℕ) (session : Session RolloutManager)
    (reached : (system settings origin).Reachable (within successful) session) :
    Coordinated settings origin session := by
  obtain ⟨sound, handed, sync⟩ := sync_run_regular (refines settings)
    (fun manager sound entry member record item => by
      obtain ⟨group, other⟩ := sound.regular entry member
      cases other.symm.trans item)
    (fun _ => starts_inStep) reached
  have window := sync.good.window
  obtain ⟨low, high, next⟩ := sync.good.committed_le
  have lengths : session.delivered.length = handed - origin := by
    rw [sync.delivered, length_range']
  have settledLength : session.settled.length = session.provider.core.committed - origin := by
    have := congrArg length sync.settled
    simpa using this
  refine ⟨⟨?_, ?_⟩, ?_, sync.sound, ?_, ?_, ?_, ?_, ?_⟩
  · show session.provider.core.committed ≤ session.provider.core.nextGroup
    omega
  · show session.provider.core.box.keys ++ _ = range' session.provider.core.committed
      (session.provider.core.nextGroup - session.provider.core.committed)
    rw [window.keys, ← next]
    cases active : session.provider.active with
    | none => simp [activeIds, active, Core.inProduction, core]
    | some production =>
      obtain ⟨groupId, version⟩ := production
      have filled : session.provider.core.filled = groupId := by
        simp [Core.filled, core, active]
      have one : session.provider.core.inProduction = 1 := by
        simp [Core.inProduction, core, active]
      rw [filled, one, show groupId + 1 - session.provider.core.committed
        = groupId - session.provider.core.committed + 1 by omega, range'_concat]
      simp [activeIds, active]
      omega
  · have := sync.good.capacity
    have size : session.provider.core.box.length = session.provider.retained.length := rfl
    unfold RLConfig.bound at this
    omega
  · rw [lengths]
    exact sync.delivered
  · rw [settledLength]
    exact sync.settled
  · rw [sync.delivered_eq]
    exact prefix_append _ _
  · intro finished
    rw [sync.delivered_eq, inHand, finished]
    simp
  · intro phase
    have place := sync.place
    simp only [Place, phase] at place
    refine ⟨place.2.2.1, ?_⟩
    intro running free delivered
    have caught : session.provider.core.box.firstUndelivered = none := by
      refine find?_eq_none.mpr ?_
      intro entry member
      simpa using delivered entry member
    have empty : session.provider.queued = 0 := by
      refine countP_eq_zero.mpr ?_
      intro entry member
      simpa using delivered entry member
    have room := (retained_lt settings.config sync phase caught).1
    have open_ := sound.running running
    have capacity := settings.config.queueCapacity_pos
    refine ⟨session.provide none (.ok ({ session.provider with
      nextGroup := session.provider.nextGroup + 1
      active := some (session.provider.nextGroup, session.provider.ack) }, none)), ?_, rfl⟩
    have enabled : act settings session.provider .dispatch = some (.ok ({ session.provider with
        nextGroup := session.provider.nextGroup + 1
        active := some (session.provider.nextGroup, session.provider.ack) }, none)) := by
      simp [act, running, free, room, empty, open_]
      omega
    simp [system, Session.system, step, sync.sound, RolloutManager.provider, enabled]

/-- Two steps over batches of two groups without policy lag, on the native engine. -/
def nativeSettings : ManagerSettings where
  config :=
    { maxSteps := 2
      groupSize := 2
      groupsPerStep := 2
      maxPolicyLag := 0
      queueCapacity := 1
      evalInterval := 0
      checkpointInterval := 1
      maxSteps_pos := Nat.two_pos
      groupSize_two := Nat.one_lt_two
      groupsPerStep_pos := Nat.two_pos
      queueCapacity_pos := Nat.one_pos }
  vllm := false
  evalRecords := false

def freshSession : Session RolloutManager where
  trainer := ⟨0, [], 0, .collecting⟩
  link := .idle
  provider := ⟨[], 0, 0, 0, none, false, false, false, 0, none⟩
  failure := none
  delivered := []
  settled := []

theorem nativeSettings_starts : Starts nativeSettings 0 freshSession :=
  ⟨0, ⟨0, 0, 0, []⟩, freshSession.provider, by decide, Recoverable.fresh nativeSettings.config 0 0,
    fun _ mem => absurd mem not_mem_nil, rfl, rfl, rfl⟩

/-- The third group is in production while the first two are trained on, and is stale afterwards. -/
def staleRun : List (SessionAction WorkerEvent) :=
  [.internal .dispatch, .internal (.complete true), .call, .serve, .receive,
    .internal .dispatch, .internal (.complete true), .call, .serve, .receive,
    .internal .dispatch, .call, .serve, .internal (.complete true), .internal .drain, .receive,
    .call, .serve, .receive, .call, .serve, .internal .drain, .receive,
    .call, .serve, .receive, .call, .serve, .receive,
    .call, .serve, .receive, .call, .serve, .receive]

theorem coordinated_stale : ∃ session, (system nativeSettings 0).Reachable (within successful) session ∧
      session.settled = [(0, .consumed), (1, .consumed), (2, .dropped)] ∧
      Coordinated nativeSettings 0 session := by
  have executed : ((system nativeSettings 0).run (within successful) freshSession staleRun).map
      (·.settled) = some [(0, .consumed), (1, .consumed), (2, .dropped)] := by rfl
  obtain ⟨session, finish, settled⟩ := map_eq_some_iff.mp executed
  have reached := System.reachable_of_run nativeSettings_starts finish
  exact ⟨session, reached, settled, coordinated nativeSettings 0 session reached⟩

end RolloutManager

end TinyDSV41.Training
