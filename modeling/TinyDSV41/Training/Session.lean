/-
**The learner and any correct provider stay in step.**

For a provider that refines the abstract one (`Refines`), the invariant `Sync` ties the three cursors
of the mailbox to the learner's private batch: the ids the learner holds and has not settled are
exactly the delivered, uncommitted rows, oldest first (`Sync.inHand`).

* `Sync.call`, `Sync.serve`, `Sync.internal`, `Sync.receive` — each kind of step keeps it.
* `sync_step` — one guarded step of the session keeps it, and no step fails.

The guard `mindful` says what a run must avoid: an excluded group must not reach the learner while
its batch already holds a group, because the learner drops it at once and the provider only accepts
its oldest rows. A stale group needs no such guard (`Sync.stale_first`): policy versions grow along
the mailbox, so what follows a usable group is usable.
-/

import TinyDSV41.Training.Core

namespace TinyDSV41.Training

open List Lib
open Trainer (batch)
open Session (deliveredBy provide settledBy step step_moves system)

variable {State Event : Type}

/-- The ids handed to the learner that no commit has settled, in the order of delivery. -/
def Session.inHand (session : Session State) : List ℕ :=
  match session.trainer.phase, session.link with
  | .collecting, .answered (.packet (some packet)) => session.trainer.batch ++ [packet.groupId]
  | .collecting, _ => session.trainer.batch
  | .discarding _, .answered _ => session.trainer.batch
  | .discarding groupId, _ => session.trainer.batch ++ [groupId]
  | .pausing, _ => session.trainer.batch
  | .committing, .answered _ => []
  | .committing, _ => session.trainer.batch
  | _, _ => []

/-- The call in progress is the one of the phase, and its answer has the right form. -/
def Linked (link : Link) (command : Command) (answer : Reply → Prop) : Prop :=
  match link with
  | .idle => True
  | .requested sent => sent = command
  | .waiting => command = .pause
  | .answered reply => answer reply

/-- A group of the batch is still retained by the provider. -/
def Kept (core : Core) (group : TrainingGroup) : Prop :=
  ∃ entry ∈ core.box, entry.2.item = .trainingGroup group

/-- The call has been answered and the answer not yet read. -/
def Link.isAnswered : Link → Prop
  | .answered _ => True
  | _ => False

/-- A reply that carries a drain receipt. -/
def isPaused (reply : Reply) : Prop := ∃ recovery, reply = .paused recovery

def isCommitted (reply : Reply) : Prop := ∃ highwater dropped, reply = .committed highwater dropped

/-- What holds in each phase of the loop. -/
def Place (config : RLConfig) (evaluates : Bool) (trainer : Trainer) (link : Link) (core : Core) : Prop :=
  match trainer.phase with
  | .evaluating => Linked link .evaluate (· = .evaluated) ∧ core.version = trainer.step ∧
      core.paused = true ∧ core.active = none ∧ evaluates = true
  | .resuming => Linked link .resume (∃ version, · = .acknowledged version) ∧
      core.version = trainer.step
  | .collecting =>
    Linked link .get (fun reply => ∃ value, reply = .packet value ∧
      ∀ packet, value = some packet → ∃ entry ∈ core.box, entry.2.item = packet) ∧
    core.version = trainer.step ∧ trainer.groups.length < config.groupsPerStep ∧
    ∀ group ∈ trainer.groups, Kept core group ∧ trainer.step - group.policyVersion ≤ config.maxPolicyLag
  | .discarding groupId => Linked link (.commit [] [groupId]) isCommitted ∧
      core.version = trainer.step ∧ trainer.groups = []
  | .pausing => Linked link .pause isPaused ∧ core.version = trainer.step ∧
      ∀ group ∈ trainer.groups, Kept core group
  | .committing => Linked link (.commit trainer.batch []) isCommitted ∧
      core.version < trainer.step ∧ (¬ link.isAnswered → ∀ group ∈ trainer.groups, Kept core group)
  | .snapshotting => Linked link .pause isPaused ∧ core.version < trainer.step ∧
      (link.isAnswered → core.drained = true)
  | .activating => Linked link (.activate trainer.step) (· = .acknowledged trainer.step) ∧
      (link.isAnswered → core.version = trainer.step) ∧
      (¬ link.isAnswered → core.drained = true ∧ core.version < trainer.step) ∧
      core.paused = true ∧ core.active = none
  | .finished => link = .idle

/-- The invariant of a session; the run started with the cursors at `origin`. -/
structure Sync (config : RLConfig) (evaluates : Bool) (session : Session State) (core : Core)
    (origin handed : ℕ) : Prop where
  good : Good config core handed
  start : origin ≤ core.committed
  delivered : session.delivered = range' origin (handed - origin)
  settled : session.settled.map Prod.fst = range' origin (core.committed - origin)
  inHand : session.inHand = range' core.committed (handed - core.committed)
  waiting : core.waiting = true ↔ session.link = .waiting
  sound : session.failure = none
  place : Place config evaluates session.trainer session.link core

/-- The packet the learner is about to read is an exclusion. -/
def Session.bringsExclusion (session : Session State) : Bool :=
  match session.link with
  | .answered (.packet (some (.exclusion _))) => true
  | _ => false

/-- The runs in which the provider's own moves are the allowed ones. -/
def within (allowed : State → Event → Prop) (session : Session State) : SessionAction Event → Prop
  | .internal event => allowed session.provider event
  | _ => True

/-- The runs a theorem is about: the provider has no fault, and no excluded group reaches the learner
while its batch holds a group. -/
def mindful (allowed : State → Event → Prop) (session : Session State) : SessionAction Event → Prop
  | .receive => session.bringsExclusion = true → session.trainer.groups = []
  | .internal event => allowed session.provider event
  | _ => True

instance decidableWithin {allowed : State → Event → Prop}
    [∀ state event, Decidable (allowed state event)] (session : Session State) :
    (action : SessionAction Event) → Decidable (within allowed session action)
  | .internal event => inferInstanceAs (Decidable (allowed session.provider event))
  | .call | .serve | .receive => isTrue trivial

instance decidableMindful {allowed : State → Event → Prop}
    [∀ state event, Decidable (allowed state event)] (session : Session State) :
    (action : SessionAction Event) → Decidable (mindful allowed session action)
  | .receive => inferInstanceAs (Decidable (_ → _))
  | .internal event => inferInstanceAs (Decidable (allowed session.provider event))
  | .call | .serve => isTrue trivial

namespace Sync

variable {config : RLConfig} {evaluates : Bool} {session : Session State} {core : Core}
  {origin handed : ℕ}

/-! ### Reading the invariant -/

theorem delivered_eq (sync : Sync config evaluates session core origin handed) :
    session.delivered = session.settled.map Prod.fst ++ session.inHand := by
  rw [sync.delivered, sync.settled, sync.inHand]
  exact (range'_join sync.start sync.good.window.low).symm

/-- A packet that is stale is the first of its batch. -/
theorem stale_first (sync : Sync config evaluates session core origin handed)
    (phase : session.trainer.phase = .collecting) {group : TrainingGroup}
    (answered : session.link = .answered (.packet (some (.trainingGroup group))))
    (stale : ¬ session.trainer.step - group.policyVersion ≤ config.maxPolicyLag) :
    session.trainer.groups = [] := by
  have place := sync.place
  rw [Place, phase, answered] at place
  obtain ⟨⟨value, same, present⟩, version, -, batch⟩ := place
  cases same
  obtain ⟨entry, mem, item⟩ := present _ rfl
  by_contra filled
  obtain ⟨older, held⟩ := exists_mem_of_ne_nil _ filled
  obtain ⟨⟨row, retained, isOlder⟩, usable⟩ := batch older held
  -- The batch comes before the packet in the order of delivery, hence in the order of the ids.
  have inHand := sync.inHand
  rw [Session.inHand, phase, answered] at inHand
  have increasing : (session.trainer.batch ++ [group.groupId]).Pairwise (· < ·) := by
    rw [show session.trainer.batch ++ [group.groupId] = range' core.committed _ from inHand]
    exact pairwise_lt_range'
  have before : older.groupId < group.groupId :=
    (pairwise_append.mp increasing).2.2 older.groupId (mem_map_of_mem held) group.groupId
      (mem_singleton_self _)
  have rowKey : row.1 = older.groupId := by
    rw [← sync.good.named row retained, isOlder]
    rfl
  have entryKey : entry.1 = group.groupId := by
    rw [← sync.good.named entry mem, item]
    rfl
  have grows := sync.good.monotone row retained entry mem (by omega) older group isOlder item
  omega

/-! ### The learner's steps -/

variable {command : Command}

section

variable (sync : Sync config evaluates session core origin handed)
include sync

theorem call (idle : session.link = .idle) (next : session.trainer.command = some command) :
    Sync config evaluates { session with link := .requested command } core origin handed := by
  have place := sync.place
  have inHand := sync.inHand
  refine ⟨sync.good, sync.start, sync.delivered, sync.settled, ?_, ?_, sync.sound, ?_⟩
  · rw [← inHand]
    unfold Session.inHand
    simp only [idle]
    cases session.trainer.phase <;> rfl
  · simpa [idle] using sync.waiting
  · unfold Place at place ⊢
    unfold Trainer.command at next
    simp only [idle] at place ⊢
    cases phase : session.trainer.phase <;> rw [phase] at place next <;> cases next <;>
      first | exact ⟨rfl, place.2⟩

theorem collect (phase : session.trainer.phase = .collecting) {packet : Packet}
    (answered : session.link = .answered (.packet (some packet)))
    (mind : ∀ record, packet = .exclusion record → session.trainer.groups = []) :
    ∃ trainer, session.trainer.collect config packet = .ok trainer ∧
      Sync config evaluates { session with trainer := trainer, link := .idle } core origin handed := by
  have place := sync.place
  have inHand := sync.inHand
  have notWaiting : ¬ core.waiting = true := by
    rw [sync.waiting, answered]
    simp
  rw [Session.inHand, phase, answered] at inHand
  rw [Place, phase, answered] at place
  obtain ⟨⟨value, same, present⟩, version, room, batch⟩ := place
  cases same
  obtain ⟨entry, mem, item⟩ := present _ rfl
  cases packet with
  | exclusion record =>
    refine ⟨_, rfl, sync.good, sync.start, sync.delivered, sync.settled, inHand, ?_, sync.sound,
      trivial, version, mind record rfl⟩
    simpa using notWaiting
  | trainingGroup group =>
    obtain ⟨notNewer, complete⟩ := sync.good.sampled entry mem group item
    rw [version] at notNewer
    by_cases usable : session.trainer.step - group.policyVersion ≤ config.maxPolicyLag
    · rw [Trainer.collect_usable notNewer complete usable]
      have kept : ∀ held ∈ session.trainer.groups ++ [group], Kept core held ∧
          session.trainer.step - held.policyVersion ≤ config.maxPolicyLag := by
        intro held inside
        rcases mem_append.mp inside with old | new
        · exact batch held old
        · rw [mem_singleton.mp new]
          exact ⟨⟨entry, mem, item⟩, usable⟩
      have ids : (session.trainer.groups ++ [group]).map (·.groupId)
          = session.trainer.batch ++ [group.groupId] := by
        rw [map_append]
        rfl
      refine ⟨_, rfl, sync.good, sync.start, sync.delivered, sync.settled, ?_, ?_, sync.sound, ?_⟩
      · split_ifs <;> exact ids.trans inHand
      · simpa using notWaiting
      · split_ifs with more
        · exact ⟨trivial, version, by simpa using more, kept⟩
        · exact ⟨trivial, version, fun held inside => (kept held inside).1⟩
    · rw [Trainer.collect_stale notNewer usable]
      refine ⟨_, rfl, sync.good, sync.start, sync.delivered, sync.settled, inHand, ?_, sync.sound,
        trivial, version, sync.stale_first phase answered usable⟩
      simpa using notWaiting

theorem receive {reply : Reply} (answered : session.link = .answered reply)
    (mind : ∀ record, reply = .packet (some (.exclusion record)) → session.trainer.groups = []) :
    ∃ trainer, session.trainer.receive config evaluates reply = .ok trainer ∧
      Sync config evaluates { session with trainer := trainer, link := .idle } core origin handed := by
  have place := sync.place
  have inHand := sync.inHand
  have notWaiting : ¬ core.waiting = true := by
    rw [sync.waiting, answered]
    simp
  -- Only the phase and the link of the session change.
  have build : ∀ trainer, Session.inHand { session with trainer := trainer, link := .idle }
        = session.inHand → Place config evaluates trainer .idle core →
      Sync config evaluates { session with trainer := trainer, link := .idle } core origin handed :=
    fun trainer same here => ⟨sync.good, sync.start, sync.delivered, sync.settled,
      same.trans inHand, by simpa using notWaiting, sync.sound, here⟩
  unfold Place at place
  rw [answered] at place
  cases phase : session.trainer.phase with rw [phase] at place
  | evaluating =>
    obtain ⟨rfl, version, stopped, free, evaluated⟩ := place
    refine ⟨{ session.trainer with phase := .resuming }, by simp only [Trainer.receive, phase],
      build _ ?_ ⟨trivial, version⟩⟩
    simp [Session.inHand, phase]
  | resuming =>
    obtain ⟨⟨acknowledged, rfl⟩, version⟩ := place
    refine ⟨{ session.trainer with
        groups := []
        phase := if session.trainer.step < config.maxSteps then .collecting else .finished },
      by simp only [Trainer.receive, phase], build _ ?_ ?_⟩
    · unfold Session.inHand
      simp only [phase]
      split_ifs <;> rfl
    · split_ifs with more
      · exact ⟨trivial, version, config.groupsPerStep_pos, by simp⟩
      · rfl
  | collecting =>
    obtain ⟨⟨value, rfl, present⟩, version, room, batch⟩ := place
    cases value with
    | none =>
      refine ⟨session.trainer, by simp only [Trainer.receive, phase], build _ ?_ ?_⟩
      · simp [Session.inHand, phase, answered]
      · unfold Place
        rw [phase]
        exact ⟨trivial, version, room, batch⟩
    | some packet =>
      obtain ⟨trainer, examined, next⟩ := sync.collect phase answered
        fun record same => mind record (by rw [same])
      refine ⟨trainer, ?_, next⟩
      simp only [Trainer.receive, phase]
      exact examined
  | discarding groupId =>
    obtain ⟨⟨highwater, dropped, rfl⟩, version, none⟩ := place
    refine ⟨{ session.trainer with phase := .collecting }, by simp only [Trainer.receive, phase],
      build _ ?_ ⟨trivial, version, ?_, ?_⟩⟩
    · simp [Session.inHand, phase, answered, batch]
    · rw [none]
      exact config.groupsPerStep_pos
    · simp [none]
  | pausing =>
    obtain ⟨⟨recovery, rfl⟩, version, kept⟩ := place
    refine ⟨{ session.trainer with step := session.trainer.step + 1, phase := .committing },
      by simp only [Trainer.receive, phase], build _ ?_ ⟨trivial, ?_, fun _ => kept⟩⟩
    · simp [Session.inHand, phase, batch]
    · simp [version]
  | committing =>
    obtain ⟨⟨highwater, dropped, rfl⟩, older, kept⟩ := place
    refine ⟨{ session.trainer with phase := .snapshotting }, by simp only [Trainer.receive, phase],
      build _ ?_ ⟨trivial, older, fun wrong => wrong.elim⟩⟩
    simp [Session.inHand, phase, answered]
  | snapshotting =>
    obtain ⟨⟨recovery, rfl⟩, older, boundary⟩ := place
    have drained := boundary trivial
    refine ⟨{ session.trainer with phase := .activating }, by simp only [Trainer.receive, phase],
      build _ ?_ ⟨trivial, fun wrong => wrong.elim, fun _ => ⟨drained, older⟩,
        sync.good.boundary drained⟩⟩
    simp [Session.inHand, phase]
  | activating =>
    obtain ⟨rfl, version, -, stopped, free⟩ := place
    refine ⟨{ session.trainer with
        phase := if Trainer.actorEvalDue config evaluates session.trainer.step then .evaluating
          else .resuming },
      by simp only [Trainer.receive, phase, if_true], build _ ?_ ?_⟩
    · unfold Session.inHand
      simp only [phase]
      split_ifs <;> rfl
    · split_ifs with due
      · exact ⟨trivial, version trivial, stopped, free, (Bool.and_eq_true_iff.mp due).1⟩
      · exact ⟨trivial, version trivial⟩
  | finished =>
    cases place

end

/-! ### The provider's steps -/

variable {next : Core}

theorem kept_of_rows (rows : ∀ entry ∈ core.box, ∃ target ∈ next.box, target.2.item = entry.2.item)
    {group : TrainingGroup} (kept : Kept core group) : Kept next group := by
  obtain ⟨entry, mem, item⟩ := kept
  obtain ⟨target, inside, same⟩ := rows entry mem
  exact ⟨target, inside, same.trans item⟩

variable {reply : Option Reply}

/-- A provider's own move, with its answer if it gives one. -/
theorem internal (sync : Sync config evaluates session core origin handed) {provider : State}
    (acted : Acts config core next reply) :
    Sync config evaluates (session.provide none (.ok (provider, reply))) next origin handed := by
  have place := sync.place
  have inHand := sync.inHand
  have good := sync.good.acts acted
  cases acted with
  | idle =>
    refine ⟨good, sync.start, ?_, ?_, inHand, sync.waiting, sync.sound, place⟩
    · simpa [provide, deliveredBy] using sync.delivered
    · simpa [provide] using sync.settled
  | dispatch free running room =>
    refine ⟨good, sync.start, ?_, ?_, inHand, sync.waiting, sync.sound, ?_⟩
    · simpa [provide, deliveredBy] using sync.delivered
    · simpa [provide] using sync.settled
    · -- Nothing is dispatched at the boundaries where the learner relies on a drained actor.
      have notDrained : core.drained ≠ true := fun drained => by
        simp [(sync.good.boundary drained).1] at running
      show Place config evaluates session.trainer session.link _
      unfold Place at place ⊢
      cases phase : session.trainer.phase <;> rw [phase] at place
      case evaluating => simp [place.2.2.1] at running
      case snapshotting => exact ⟨place.1, place.2.1, fun told => absurd (place.2.2 told) notDrained⟩
      case activating => simp [place.2.2.2.1] at running
      all_goals exact place
  | @complete groupId version packet drained active named sampled still =>
    have rows : ∀ entry ∈ core.box, ∃ target ∈ core.box ++ [(groupId, (⟨packet, false⟩ : Row Packet))],
        target.2.item = entry.2.item :=
      fun entry mem => ⟨entry, mem_append_left _ mem, rfl⟩
    refine ⟨good, sync.start, ?_, ?_, inHand, sync.waiting, sync.sound, ?_⟩
    · simpa [provide, deliveredBy] using sync.delivered
    · simpa [provide] using sync.settled
    · have notDrained : core.drained ≠ true := fun now => by
        simp [(sync.good.boundary now).2] at active
      show Place config evaluates session.trainer session.link _
      unfold Place at place ⊢
      cases phase : session.trainer.phase <;> rw [phase] at place
      case evaluating => simp [place.2.2.2.1] at active
      case collecting =>
        refine ⟨?_, place.2.1, place.2.2.1, fun group held =>
          ⟨kept_of_rows rows (place.2.2.2 group held).1, (place.2.2.2 group held).2⟩⟩
        cases link : session.link <;> rw [link] at place
        case answered reply =>
          obtain ⟨⟨value, same, present⟩, -⟩ := place
          refine ⟨value, same, fun handedOut isPacket => ?_⟩
          obtain ⟨entry, mem, item⟩ := present handedOut isPacket
          exact ⟨entry, mem_append_left _ mem, item⟩
        all_goals exact place.1
      case pausing =>
        exact ⟨place.1, place.2.1, fun group held => kept_of_rows rows (place.2.2 group held)⟩
      case committing =>
        exact ⟨place.1, place.2.1, fun open_ group held => kept_of_rows rows (place.2.2 open_ group held)⟩
      case snapshotting => exact ⟨place.1, place.2.1, fun told => absurd (place.2.2 told) notDrained⟩
      case activating => simp [place.2.2.2.2] at active
      all_goals exact place
  | drain stopped free asked =>
    have link := sync.waiting.mp asked
    refine ⟨good, sync.start, ?_, ?_, ?_, by simp [provide], sync.sound, ?_⟩
    · simpa [provide, deliveredBy] using sync.delivered
    · simpa [provide] using sync.settled
    · rw [← inHand]
      unfold Place at place
      simp only [provide, Session.inHand, link] at place ⊢
      cases phase : session.trainer.phase <;> simp [phase, Linked] at place ⊢
    · show Place config evaluates session.trainer (.answered _) _
      unfold Place at place ⊢
      rw [link] at place
      cases phase : session.trainer.phase <;> rw [phase] at place
      case pausing => exact ⟨⟨_, rfl⟩, place.2⟩
      case snapshotting => exact ⟨⟨_, rfl⟩, place.2.1, fun _ => rfl⟩
      all_goals simp [Linked] at place

theorem commitIds_eq (ids : List ℕ) {count : ℕ} (range : ids = range' core.committed count) :
    ids.insertionSort (· ≤ ·) = range' core.committed count := by
  rw [range]
  have increasing : (range' core.committed count).Pairwise (· < ·) := pairwise_lt_range'
  exact (increasing.imp fun less => less.le).insertionSort_eq

theorem accepted (sync : Sync config evaluates session core origin handed) {consumed dropped : List ℕ}
    (names : consumed ++ dropped = session.inHand) :
    commitIds consumed dropped = range' core.committed (handed - core.committed) ∧
      core.box.isDeliveredPrefix (commitIds consumed dropped) = true := by
  have ids : commitIds consumed dropped = range' core.committed (handed - core.committed) :=
    commitIds_eq _ (names.trans sync.inHand)
  refine ⟨ids, (sync.good.window.isDeliveredPrefix_iff _).mpr ?_⟩
  have low := sync.good.window.low
  rw [ids, length_range']
  exact ⟨rfl, by omega⟩

def answerLink : Option Reply → Link
  | some reply => .answered reply
  | none => .waiting

section

variable (sync : Sync config evaluates session core origin handed)
include sync

theorem quiet (good : Good config next handed)
    (committed : next.committed = core.committed) (delivers : deliveredBy reply = [])
    (settles : settledBy command = []) (waits : next.waiting = true ↔ reply = none)
    (inHand : Session.inHand { session with link := answerLink reply } = session.inHand)
    (place : Place config evaluates session.trainer (answerLink reply) next) :
    Sync config evaluates (session.provide (some command) (.ok (provider, reply))) next origin handed := by
  have provided : session.provide (some command) (.ok (provider, reply))
      = { session with provider := provider, link := answerLink reply } := by
    cases reply <;> simp [provide, answerLink, delivers, settles]
  rw [provided]
  refine ⟨good, by rw [committed]; exact sync.start, sync.delivered, ?_, ?_, ?_, sync.sound, place⟩
  · rw [committed]
    exact sync.settled
  · rw [committed, ← sync.inHand]
    exact inHand
  · rw [waits]
    cases reply <;> simp [answerLink]

theorem serve_packet (requested : session.link = .requested .get)
    (phase : session.trainer.phase = .collecting) {entry : ℕ × Row Packet}
    (found : core.box.firstUndelivered = some entry) :
    Sync config evaluates (session.provide (some .get) (.ok (provider, some (.packet (some entry.2.item)))))
      { core with box := core.box.deliver entry.1 } origin (handed + 1) := by
  have place := sync.place
  have inHand := sync.inHand
  have low := sync.good.window.low
  have start := sync.start
  obtain ⟨mem, key, below⟩ := sync.good.window.firstUndelivered_eq found
  have named := sync.good.named entry mem
  rw [Place, phase, requested] at place
  rw [Session.inHand, phase, requested] at inHand
  obtain ⟨-, version, room, batch⟩ := place
  have rows : ∀ row ∈ core.box, ∃ target ∈ core.box.deliver entry.1, target.2.item = row.2.item := by
    intro row inside
    refine ⟨_, mem_map_of_mem inside, ?_⟩
    split_ifs <;> rfl
  have extend : ∀ cursor, cursor ≤ handed → range' cursor (handed + 1 - cursor)
      = range' cursor (handed - cursor) ++ [entry.2.item.groupId] := by
    intro cursor before
    have longer : handed + 1 - cursor = (handed - cursor) + 1 := by omega
    have last : cursor + (handed - cursor) = handed := by omega
    rw [longer, range'_concat, Nat.one_mul, last, named, key]
  refine ⟨sync.good.serves (.getPacket found), start, ?_, ?_, ?_, ?_, sync.sound, ?_⟩
  · rw [extend origin (start.trans low), ← sync.delivered]
    rfl
  · simpa [provide, settledBy] using sync.settled
  · rw [extend core.committed low, ← inHand]
    simp [provide, Session.inHand, phase]
  · have : ¬ core.waiting = true := by
      rw [sync.waiting, requested]
      simp
    simpa [provide] using this
  · simp only [Place, provide, phase]
    refine ⟨⟨some entry.2.item, rfl, ?_⟩, version, room, fun group held =>
      ⟨kept_of_rows rows (batch group held).1, (batch group held).2⟩⟩
    rintro packet ⟨⟩
    exact rows entry mem

/-- A commit of the ids in hand is served. -/
theorem serve_commit {consumed dropped : List ℕ}
    (requested : session.link = .requested (.commit consumed dropped))
    (names : consumed ++ dropped = session.inHand)
    (served : Serves core (.commit consumed dropped) next reply)
    (empty : ∀ answer, Session.inHand { session with link := .answered answer } = [])
    (place : ∀ answer, isCommitted answer → next.version = core.version → Place config evaluates
      session.trainer (.answered answer) next) :
    Sync config evaluates (session.provide (some (.commit consumed dropped)) (.ok (provider, reply))) next
      origin handed := by
  have ids := (sync.accepted names).1
  have low := sync.good.window.low
  have start := sync.start
  have good := sync.good.serves served
  cases served with
  | @commit _ _ highwater droppedGroups accepted =>
    have cursor : core.committed + (commitIds consumed dropped).length = handed := by
      rw [ids, length_range']
      omega
    have named : (settledBy (.commit consumed dropped)).map Prod.fst = session.inHand := by
      rw [← names]
      simp [settledBy, Function.comp_def]
    refine ⟨good, ?_, ?_, ?_, ?_, ?_, sync.sound, place _ ⟨_, _, rfl⟩ rfl⟩
    · exact start.trans (Nat.le_add_right _ _)
    · simpa [provide, deliveredBy] using sync.delivered
    · show (session.settled ++ settledBy (.commit consumed dropped)).map Prod.fst
        = range' origin (core.committed + (commitIds consumed dropped).length - origin)
      rw [cursor, map_append, named, ← sync.delivered_eq, sync.delivered]
    · rw [cursor, Nat.sub_self]
      exact empty _
    · have : ¬ core.waiting = true := by
        rw [sync.waiting, requested]
        simp
      simpa [provide] using this

/-- A served call, when the provider answers it as the abstract one may. -/
theorem serve (requested : session.link = .requested command)
    (served : Serves core command next reply) :
    ∃ cursor, Sync config evaluates (session.provide (some command) (.ok (provider, reply))) next origin
      cursor := by
  have place := sync.place
  have good := sync.good.serves served
  have notWaiting : ¬ core.waiting = true := by
    rw [sync.waiting, requested]
    simp
  unfold Place at place
  rw [requested] at place
  cases phase : session.trainer.phase <;> rw [phase] at place
  case evaluating =>
    obtain ⟨rfl, version, stopped, free, evaluated⟩ := place
    cases served
    refine ⟨handed, sync.quiet good rfl rfl rfl (by simpa using notWaiting) ?_ ?_⟩
    · simp [Session.inHand, phase]
    · rw [Place, phase]
      exact ⟨rfl, version, stopped, free, evaluated⟩
  case resuming =>
    obtain ⟨rfl, version⟩ := place
    cases served
    refine ⟨handed, sync.quiet good rfl rfl rfl (by simpa using notWaiting) ?_ ?_⟩
    · simp [Session.inHand, phase]
    · rw [Place, phase]
      exact ⟨⟨_, rfl⟩, version⟩
  case collecting =>
    obtain ⟨rfl, version, room, batch⟩ := place
    cases served with
    | getNothing caught =>
      refine ⟨handed, sync.quiet good rfl rfl rfl (by simpa using notWaiting) ?_ ?_⟩
      · simp [Session.inHand, answerLink, phase, requested]
      · rw [Place, phase]
        exact ⟨⟨none, rfl, by simp⟩, version, room, batch⟩
    | getPacket found => exact ⟨handed + 1, sync.serve_packet requested phase found⟩
  case discarding groupId =>
    obtain ⟨rfl, version, none⟩ := place
    refine ⟨handed, sync.serve_commit requested ?_ served ?_ ?_⟩
    · simp [Session.inHand, phase, requested, batch, none]
    · intro answer
      simp [Session.inHand, phase, batch, none]
    · intro answer committed same
      rw [Place, phase]
      exact ⟨committed, same.trans version, none⟩
  case pausing =>
    obtain ⟨rfl, version, kept⟩ := place
    cases served
    refine ⟨handed, sync.quiet good rfl rfl rfl (by simp) ?_ ?_⟩
    · simp [Session.inHand, phase]
    · rw [Place, phase]
      exact ⟨rfl, version, kept⟩
  case committing =>
    obtain ⟨rfl, older, kept⟩ := place
    refine ⟨handed, sync.serve_commit requested ?_ served ?_ ?_⟩
    · simp [Session.inHand, phase, requested]
    · intro answer
      simp [Session.inHand, phase]
    · intro answer committed same
      rw [Place, phase]
      exact ⟨committed, same.trans_lt older, absurd trivial⟩
  case snapshotting =>
    obtain ⟨rfl, older, boundary⟩ := place
    cases served
    refine ⟨handed, sync.quiet good rfl rfl rfl (by simp) ?_ ?_⟩
    · simp [Session.inHand, phase]
    · rw [Place, phase]
      exact ⟨rfl, older, fun wrong => wrong.elim⟩
  case activating =>
    obtain ⟨rfl, -, -, stopped, free⟩ := place
    cases served
    refine ⟨handed, sync.quiet good rfl rfl rfl (by simpa using notWaiting) ?_ ?_⟩
    · simp [Session.inHand, phase]
    · rw [Place, phase]
      exact ⟨rfl, fun _ => rfl, absurd trivial, stopped, free⟩
  case finished => cases place

/-- A correct provider refuses none of the learner's calls. -/
theorem not_refused (requested : session.link = .requested command) : ¬ Refuses evaluates core command := by
  intro refused
  have place := sync.place
  unfold Place at place
  rw [requested] at place
  cases phase : session.trainer.phase <;> rw [phase] at place
  case evaluating =>
    obtain ⟨rfl, version, stopped, free, evaluated⟩ := place
    cases refused with
    | evaluate busy => simp [stopped, free, evaluated] at busy
  case resuming | collecting | pausing =>
    obtain ⟨rfl, version⟩ := place
    cases refused
  case discarding groupId =>
    obtain ⟨rfl, version, none⟩ := place
    have names : [] ++ [groupId] = session.inHand := by
      simp [Session.inHand, phase, requested, batch, none]
    cases refused with
    | commit rejected => simp [(sync.accepted names).2] at rejected
    | consumesExclusion named => cases named
  case committing =>
    obtain ⟨rfl, older, kept⟩ := place
    have names : session.trainer.batch ++ [] = session.inHand := by
      simp [Session.inHand, phase, requested]
    cases refused with
    | commit rejected => simp [(sync.accepted names).2] at rejected
    | consumesExclusion named mem key excluded =>
      obtain ⟨group, held, rfl⟩ := mem_map.mp named
      obtain ⟨row, retained, isGroup⟩ := kept (fun wrong => wrong) group held
      have rowKey : row.1 = group.groupId := by
        rw [← sync.good.named row retained, isGroup]
        rfl
      rw [sync.good.window.eq_of_key_eq mem retained (key.trans rowKey.symm), isGroup] at excluded
      cases excluded
  case snapshotting =>
    obtain ⟨rfl, older⟩ := place
    cases refused
  case activating =>
    obtain ⟨rfl, -, ready, -⟩ := place
    obtain ⟨drained, older⟩ := ready fun wrong => wrong
    cases refused with
    | activate unready =>
      rcases unready with never | old
      · simp [drained] at never
      · omega
  case finished => cases place

theorem exclusion_retained (brings : session.bringsExclusion = true) :
    ∃ entry ∈ core.box, ∃ record, entry.2.item = .exclusion record := by
  have place := sync.place
  unfold Session.bringsExclusion at brings
  split at brings
  case h_2 => cases brings
  case h_1 record answered =>
    unfold Place at place
    rw [answered] at place
    cases phase : session.trainer.phase <;> rw [phase] at place
    case collecting =>
      obtain ⟨⟨value, same, present⟩, -⟩ := place
      cases same
      obtain ⟨entry, mem, item⟩ := present _ rfl
      exact ⟨entry, mem, record, item⟩
    case finished => cases place
    all_goals
      obtain ⟨wrong, -⟩ := place
      simp [Linked, isCommitted, isPaused] at wrong

end

end Sync

/-! ### Steps and runs -/

section Runs

variable {config : RLConfig} {provider : Provider State Event} {core : State → Core}
  {own : State → Prop} {allowed : State → Event → Prop}

/-- The invariant of a session over a provider with its private invariant. -/
def InStep (config : RLConfig) (evaluates : Bool) (core : State → Core) (own : State → Prop)
    (origin : ℕ) (session : Session State) : Prop :=
  own session.provider ∧ ∃ handed, Sync config evaluates session (core session.provider) origin handed

section

variable {origin : ℕ} (refines : Refines config provider core own allowed)
include refines

/-- One guarded step keeps the learner and the provider in step. -/
theorem sync_step {session next : Session State} {action : SessionAction Event}
    (guard : mindful allowed session action)
    (stepped : step config provider session action = some next)
    (known : InStep config provider.evaluates core own origin session) :
    InStep config provider.evaluates core own origin next := by
  obtain ⟨private_, handed, sync⟩ := known
  cases (step_moves stepped).2 with
  | call idle calls => exact ⟨private_, handed, sync.call idle calls⟩
  | @serve command requested =>
    have notWaiting : (core session.provider).waiting = false := by
      rw [Bool.eq_false_iff]
      intro waiting
      simp [sync.waiting.mp waiting] at requested
    cases result : provider.handle session.provider command with
    | error message =>
      exact absurd (refines.refuses private_ sync.good notWaiting result) (sync.not_refused requested)
    | ok answer =>
      obtain ⟨served, kept⟩ := refines.serves private_ sync.good notWaiting result
      exact ⟨kept, sync.serve requested served⟩
  | @internal event result acts =>
    cases result with
    | error message => exact absurd acts (refines.steady private_ sync.good guard)
    | ok answer =>
      obtain ⟨acted, kept⟩ := refines.acts private_ sync.good guard acts
      exact ⟨kept, handed, sync.internal acted⟩
  | receive answered received | refuse answered received =>
    obtain ⟨trainer, ends, after⟩ := sync.receive answered
      fun record same => guard (by rw [Session.bringsExclusion, answered, same])
    cases received.symm.trans ends <;> exact ⟨private_, handed, after⟩

variable {initial : Session State → Prop}

theorem sync_run
    (starts : ∀ session, initial session → InStep config provider.evaluates core own origin session)
    {session : Session State}
    (reached : (system config provider initial).Reachable (mindful allowed) session) :
    InStep config provider.evaluates core own origin session :=
  reached.invariant _ starts fun _ _ _ guard stepped => sync_step refines guard stepped

omit refines in
/-- Over a provider that excludes no group every run is mindful. -/
theorem mindful_of_regular
    (regular : ∀ state, own state → ∀ entry ∈ (core state).box, ∀ record, entry.2.item ≠ .exclusion
      record) {session : Session State} {action : SessionAction Event}
    (known : InStep config provider.evaluates core own origin session)
    (guard : within allowed session action) : mindful allowed session action := by
  cases action with
  | receive =>
    intro brings
    obtain ⟨private_, _, sync⟩ := known
    obtain ⟨entry, mem, record, item⟩ := sync.exclusion_retained brings
    exact absurd item (regular _ private_ entry mem record)
  | internal event => exact guard
  | call | serve => trivial

theorem sync_run_regular
    (regular : ∀ state, own state → ∀ entry ∈ (core state).box, ∀ record, entry.2.item ≠ .exclusion
      record)
    (starts : ∀ session, initial session → InStep config provider.evaluates core own origin session)
    {session : Session State}
    (reached : (system config provider initial).Reachable (within allowed) session) :
    InStep config provider.evaluates core own origin session :=
  reached.invariant _ starts fun _ _ _ guard stepped known =>
    sync_step refines (mindful_of_regular regular known guard) stepped known

end

end Runs

end TinyDSV41.Training
