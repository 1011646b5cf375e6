/-
**What a rollout provider is for: the abstract provider.**

Both providers of the trainer keep a bounded mailbox of groups between two cursors, at most one group
in production, and a policy that changes only while nothing is in production. `Core` is that much of
a provider's state, `Serves` and `Refuses` say which answers to a call are allowed, `Acts` what a
provider may do on its own. A provider is correct when it refines these moves (`Refines`).

* `Good` — the mailbox is the window `[committed, filled)`, the group in production has the next id,
  everything fits the bound, and policy versions never decrease along the mailbox.
* `Good.serves`, `Good.acts` — every allowed move keeps `Good`, and `Good.committed_le` orders the
  cursors.
-/

import TinyDSV41.Training.Trainer

namespace TinyDSV41.Training

open List Lib Packet Mailbox

/-- The part of a provider's state that the protocol with the learner is about. -/
structure Core where
  box : Mailbox Packet
  nextGroup : ℕ
  committed : ℕ
  /-- The group in production and the policy version it is sampled under. -/
  active : Option (ℕ × ℕ)
  paused : Bool
  /-- A pause was answered and the provider is still at that boundary. -/
  drained : Bool
  /-- A pause was taken and is not yet answered. -/
  waiting : Bool
  version : ℕ

namespace Core

/-- The cursor the next completed group is filed under. -/
def filled (core : Core) : ℕ :=
  match core.active with
  | none => core.nextGroup
  | some (groupId, _) => groupId

/-- The number of groups in production. -/
def inProduction (core : Core) : ℕ := if core.active.isSome then 1 else 0

/-- The recovery state of a provider at a boundary. -/
def recovery (core : Core) (droppedGroups : ℕ) : Recovery where
  nextGroupId := core.nextGroup
  committedHighwater := core.committed
  droppedGroups := droppedGroups
  pendingPackets := core.box.map fun entry => entry.2.item

end Core

/-- The ids of a commit in increasing order. -/
def commitIds (consumed dropped : List ℕ) : List ℕ := (consumed ++ dropped).insertionSort (· ≤ ·)

inductive Serves (core : Core) : Command → Core → Option Reply → Prop
  | getNothing (caught : core.box.firstUndelivered = none) :
      Serves core .get core (some (.packet none))
  | getPacket {entry : ℕ × Row Packet} (found : core.box.firstUndelivered = some entry) :
      Serves core .get { core with box := core.box.deliver entry.1 } (some (.packet (some entry.2.item)))
  | commit {consumed dropped : List ℕ} {highwater droppedGroups : ℕ}
      (accepted : core.box.isDeliveredPrefix (commitIds consumed dropped) = true) :
      Serves core (.commit consumed dropped) { core with
          box := core.box.settle (commitIds consumed dropped)
          committed := core.committed + (commitIds consumed dropped).length }
        (some (.committed highwater droppedGroups))
  | pause {drained : Bool} (still : drained = true → core.active = none) :
      Serves core .pause { core with paused := true, drained := drained, waiting := true } none
  | activate {version : ℕ} {drained : Bool} (ready : core.drained = true)
      (newer : core.version ≤ version) :
      Serves core (.activate version) { core with version := version, drained := drained }
        (some (.acknowledged version))
  | resume :
      Serves core .resume { core with paused := false, drained := false }
        (some (.acknowledged core.version))
  | evaluate : Serves core .evaluate core (some .evaluated)

/-- The reasons for which a provider may refuse a call. -/
inductive Refuses (evaluates : Bool) (core : Core) : Command → Prop
  | commit {consumed dropped : List ℕ}
      (rejected : core.box.isDeliveredPrefix (commitIds consumed dropped) = false) :
      Refuses evaluates core (.commit consumed dropped)
  | consumesExclusion {consumed dropped : List ℕ} {groupId : ℕ} {entry : ℕ × Row Packet}
      {record : GroupExclusion} (named : groupId ∈ consumed) (member : entry ∈ core.box)
      (key : entry.1 = groupId) (excluded : entry.2.item = .exclusion record) :
      Refuses evaluates core (.commit consumed dropped)
  | activate {version : ℕ} (unready : core.drained = false ∨ version ≤ core.version) :
      Refuses evaluates core (.activate version)
  | evaluate (busy : evaluates = false ∨ core.paused = false ∨ core.active ≠ none) :
      Refuses evaluates core .evaluate

/-- What a provider may do between two calls. -/
inductive Acts (config : RLConfig) (core : Core) : Core → Option Reply → Prop
  | idle : Acts config core core none
  | dispatch (free : core.active = none) (running : core.paused = false)
      (room : core.box.length < config.bound) :
      Acts config core { core with
          active := some (core.nextGroup, core.version)
          nextGroup := core.nextGroup + 1
          drained := false } none
  | complete {groupId version : ℕ} {packet : Packet} {drained : Bool}
      (active : core.active = some (groupId, version)) (named : packet.groupId = groupId)
      (sampled : ∀ group, packet = .trainingGroup group →
        group.policyVersion = version ∧ group.samples.length = config.groupSize)
      (still : drained = true → core.paused = true) :
      Acts config core { core with
          active := none
          box := core.box ++ [(groupId, ⟨packet, false⟩)]
          drained := drained } none
  | drain {droppedGroups : ℕ} (stopped : core.paused = true) (free : core.active = none)
      (asked : core.waiting = true) :
      Acts config core { core with drained := true, waiting := false }
        (some (.paused (core.recovery droppedGroups)))

/-- The invariant of the abstract provider; groups below `handed` have been handed out. -/
structure Good (config : RLConfig) (core : Core) (handed : ℕ) : Prop where
  window : Window core.box core.committed handed core.filled
  producing : ∀ groupId version, core.active = some (groupId, version) →
    groupId + 1 = core.nextGroup ∧ version = core.version
  capacity : core.box.length + core.inProduction ≤ config.bound
  boundary : core.drained = true → core.paused = true ∧ core.active = none
  named : ∀ entry ∈ core.box, entry.2.item.groupId = entry.1
  sampled : ∀ entry ∈ core.box, ∀ group, entry.2.item = .trainingGroup group →
    group.policyVersion ≤ core.version ∧ group.samples.length = config.groupSize
  monotone : ∀ first ∈ core.box, ∀ second ∈ core.box, first.1 ≤ second.1 →
    ∀ older newer, first.2.item = .trainingGroup older → second.2.item = .trainingGroup newer →
      older.policyVersion ≤ newer.policyVersion

/-- A provider refines the abstract one: `own` is its private invariant, `allowed` excludes the
faults a theorem assumes away. -/
structure Refines {State Event : Type} (config : RLConfig) (provider : Provider State Event)
    (core : State → Core) (own : State → Prop) (allowed : State → Event → Prop) : Prop where
  serves : ∀ {state next command reply handed}, own state → Good config (core state) handed →
    (core state).waiting = false → provider.handle state command = .ok (next, reply) →
      Serves (core state) command (core next) reply ∧ own next
  refuses : ∀ {state command message handed}, own state → Good config (core state) handed →
    (core state).waiting = false → provider.handle state command = .error message →
      Refuses provider.evaluates (core state) command
  acts : ∀ {state next event reply handed}, own state → Good config (core state) handed →
    allowed state event → provider.act state event = some (.ok (next, reply)) →
      Acts config (core state) (core next) reply ∧ own next
  steady : ∀ {state event message handed}, own state → Good config (core state) handed →
    allowed state event → provider.act state event ≠ some (.error message)

namespace Good

variable {config : RLConfig} {core : Core} {handed : ℕ}

section

variable (good : Good config core handed)
include good

theorem committed_le :
    core.committed ≤ handed ∧ handed ≤ core.filled ∧ core.filled + core.inProduction = core.nextGroup := by
  refine ⟨good.window.low, good.window.high, ?_⟩
  unfold Core.filled Core.inProduction
  cases active : core.active with
  | none => simp
  | some production =>
    obtain ⟨groupId, version⟩ := production
    simpa using (good.producing groupId version active).1

theorem of_subset {next : Core} {cursor : ℕ} (window : Window next.box next.committed cursor next.filled)
    (producing : ∀ groupId version, next.active = some (groupId, version) → groupId + 1 = next.nextGroup
      ∧ version = next.version) (capacity : next.box.length + next.inProduction ≤ config.bound)
    (boundary : next.drained = true → next.paused = true ∧ next.active = none)
    (newer : core.version ≤ next.version)
    (rows : ∀ entry ∈ next.box, ∃ source ∈ core.box, source.1 = entry.1 ∧ source.2.item = entry.2.item) :
    Good config next cursor where
  window := window
  producing := producing
  capacity := capacity
  boundary := boundary
  named := by
    intro entry mem
    obtain ⟨source, inside, key, item⟩ := rows entry mem
    rw [← item, ← key]
    exact good.named source inside
  sampled := by
    intro entry mem group isGroup
    obtain ⟨source, inside, _, item⟩ := rows entry mem
    have facts := good.sampled source inside group (item.trans isGroup)
    exact ⟨facts.1.trans newer, facts.2⟩
  monotone := by
    intro first left second right order older later isOlder isLater
    obtain ⟨one, inOne, keyOne, itemOne⟩ := rows first left
    obtain ⟨two, inTwo, keyTwo, itemTwo⟩ := rows second right
    exact good.monotone one inOne two inTwo (by omega) older later (itemOne.trans isOlder)
      (itemTwo.trans isLater)

/-- A served call keeps the invariant; only a delivered packet moves the handed cursor. -/
theorem serves {next : Core} {command : Command} {reply : Option Reply}
    (served : Serves core command next reply) :
    Good config next (handed + (Session.deliveredBy reply).length) := by
  cases served with
  | getNothing | evaluate => exact good
  | getPacket found =>
    obtain ⟨-, key, room⟩ := good.window.firstUndelivered_eq found
    refine good.of_subset ?_ good.producing ?_ good.boundary le_rfl ?_
    · rw [key]
      exact good.window.deliver room
    · simpa [deliver, Core.inProduction] using good.capacity
    · intro entry mem
      obtain ⟨source, inside, rfl⟩ := mem_map.mp mem
      refine ⟨source, inside, ?_⟩
      split_ifs <;> exact ⟨rfl, rfl⟩
  | @commit consumed dropped _ _ accepted =>
    obtain ⟨oldest, below⟩ := (good.window.isDeliveredPrefix_iff _).mp accepted
    refine good.of_subset ?_ good.producing ?_ good.boundary le_rfl ?_
    · rw [oldest, length_range']
      exact good.window.settle below
    · have := good.capacity
      have shorter := length_filter_le
        (fun entry : ℕ × Row Packet => entry.1 ∉ commitIds consumed dropped) core.box
      exact (Nat.add_le_add_right shorter _).trans this
    · intro entry mem
      exact ⟨entry, mem_of_mem_filter mem, rfl, rfl⟩
  | pause still =>
    exact good.of_subset good.window good.producing good.capacity
      (fun now => ⟨rfl, still now⟩) le_rfl fun entry mem => ⟨entry, mem, rfl, rfl⟩
  | activate ready newer =>
    obtain ⟨stopped, free⟩ := good.boundary ready
    refine good.of_subset good.window ?_ good.capacity (fun _ => ⟨stopped, free⟩) newer
      fun entry mem => ⟨entry, mem, rfl, rfl⟩
    intro groupId version active
    exact absurd (free.symm.trans active) (by simp)
  | resume =>
    exact good.of_subset good.window good.producing good.capacity (by simp) le_rfl
      fun entry mem => ⟨entry, mem, rfl, rfl⟩

/-- A provider's own move keeps the invariant and hands nothing out. -/
theorem acts {next : Core} {reply : Option Reply} (acted : Acts config core next reply) :
    Good config next handed := by
  cases acted with
  | idle => exact good
  | dispatch free running room =>
    have filled : core.filled = core.nextGroup := by simp [Core.filled, free]
    refine good.of_subset ?_ ?_ ?_ (by simp) le_rfl fun entry mem =>
      ⟨entry, mem, rfl, rfl⟩
    · rw [← filled]
      exact good.window
    · rintro groupId version same
      cases same
      exact ⟨rfl, rfl⟩
    · exact room
  | @complete groupId version packet drained active named sampled still =>
    obtain ⟨next, current⟩ := good.producing groupId version active
    have filled : core.filled = groupId := by simp [Core.filled, active]
    have window := good.window
    rw [filled] at window
    have below : ∀ entry ∈ core.box, entry.1 < groupId :=
      fun entry mem => (window.mem_bounds mem).2
    have split : ∀ entry ∈ core.box ++ [(groupId, (⟨packet, false⟩ : Row Packet))],
        entry ∈ core.box ∨ entry = (groupId, ⟨packet, false⟩) := by
      intro entry mem
      rcases mem_append.mp mem with old | new
      · exact Or.inl old
      · exact Or.inr (mem_singleton.mp new)
    refine ⟨?_, by simp, ?_, fun now => ⟨still now, rfl⟩, ?_, ?_, ?_⟩
    · rw [← next]
      exact window.push packet
    · have := good.capacity
      simpa [Core.inProduction, active] using this
    · intro entry mem
      rcases split entry mem with old | rfl
      · exact good.named entry old
      · exact named
    · intro entry mem group isGroup
      rcases split entry mem with old | rfl
      · exact good.sampled entry old group isGroup
      · obtain ⟨same, complete⟩ := sampled group isGroup
        exact ⟨(same.trans current).le, complete⟩
    · intro first left second right order older newer isOlder isNewer
      rcases split first left with oldFirst | rfl
      · rcases split second right with oldSecond | rfl
        · exact good.monotone first oldFirst second oldSecond order older newer isOlder isNewer
        · -- The new group is sampled under the current policy, the newest of all.
          rw [(sampled newer isNewer).1, current]
          exact (good.sampled first oldFirst older isOlder).1
      · rcases split second right with oldSecond | rfl
        · have := below second oldSecond
          omega
        · rw [isOlder] at isNewer
          cases isNewer
          exact le_rfl
  | drain stopped free asked =>
    exact good.of_subset good.window good.producing good.capacity (fun _ => ⟨stopped, free⟩)
      le_rfl fun entry mem => ⟨entry, mem, rfl, rfl⟩

theorem commit_cursor {consumed dropped : List ℕ}
    (accepted : core.box.isDeliveredPrefix (commitIds consumed dropped) = true) :
    (match (commitIds consumed dropped).getLast? with
      | some last => last + 1
      | none => core.committed) = core.committed + (commitIds consumed dropped).length := by
  obtain ⟨oldest, -⟩ := (good.window.isDeliveredPrefix_iff _).mp accepted
  rw [oldest, length_range', getLast?_range']
  by_cases zero : (commitIds consumed dropped).length = 0
  · rw [if_pos zero, zero]
    rfl
  · rw [if_neg zero]
    simp only
    omega

end

end Good

/-! ### Recovery -/

/-- The mailbox a recovery state stands for: nothing of it has been handed out yet. -/
def Recovery.box (recovery : Recovery) : Mailbox Packet :=
  recovery.pendingPackets.map fun packet => (packet.groupId, ⟨packet, false⟩)

/-- What a provider may be started from under a policy version: a drained boundary of an earlier
run (`Good.recoverable`), or the empty mailbox of a fresh run (`Recoverable.fresh`). -/
structure Recoverable (config : RLConfig) (version : ℕ) (recovery : Recovery) : Prop where
  cursors : recovery.committedHighwater ≤ recovery.nextGroupId
  ids : recovery.pendingPackets.map groupId = range' recovery.committedHighwater
    (recovery.nextGroupId - recovery.committedHighwater)
  bounded : recovery.pendingPackets.length ≤ config.bound
  sampled : ∀ packet ∈ recovery.pendingPackets, ∀ group, packet = .trainingGroup group →
    group.policyVersion ≤ version ∧ group.samples.length = config.groupSize
  monotone : ∀ first ∈ recovery.pendingPackets, ∀ second ∈ recovery.pendingPackets,
    first.groupId ≤ second.groupId → ∀ older newer, first = .trainingGroup older →
      second = .trainingGroup newer → older.policyVersion ≤ newer.policyVersion

theorem Good.recoverable {config : RLConfig} {core : Core} {handed version : ℕ}
    (good : Good config core handed) (free : core.active = none) (later : core.version ≤ version)
    (droppedGroups : ℕ) : Recoverable config version (core.recovery droppedGroups) := by
  have filled : core.filled = core.nextGroup := by simp [Core.filled, free]
  have low := good.window.low
  have high := good.window.high
  refine ⟨by unfold Core.recovery; simp only; omega, ?_, ?_, ?_, ?_⟩
  · have keys : (core.box.map fun entry => entry.2.item).map groupId = core.box.keys := by
      rw [map_map]
      exact map_congr_left good.named
    show (core.box.map fun entry => entry.2.item).map groupId = _
    rw [keys, good.window.keys, filled]
    rfl
  · have := good.capacity
    simp only [Core.recovery, length_map]
    omega
  · intro packet mem group isGroup
    obtain ⟨entry, inside, rfl⟩ := mem_map.mp mem
    have facts := good.sampled entry inside group isGroup
    exact ⟨facts.1.trans later, facts.2⟩
  · intro first left second right order older newer isOlder isNewer
    obtain ⟨one, inOne, rfl⟩ := mem_map.mp left
    obtain ⟨two, inTwo, rfl⟩ := mem_map.mp right
    rw [good.named one inOne, good.named two inTwo] at order
    exact good.monotone one inOne two inTwo order older newer isOlder isNewer

theorem Recoverable.fresh (config : RLConfig) (version nextGroupId : ℕ) :
    Recoverable config version ⟨nextGroupId, nextGroupId, 0, []⟩ :=
  ⟨le_rfl, by simp, by simp, by simp, by simp⟩

section Restoring

variable {config : RLConfig} {version : ℕ} {recovery : Recovery}

theorem Recoverable.keys_box (recoverable : Recoverable config version recovery) :
    recovery.box.keys = range' recovery.committedHighwater
      (recovery.nextGroupId - recovery.committedHighwater) := by
  rw [← recoverable.ids]
  unfold Mailbox.keys Recovery.box
  rw [map_map]
  rfl

theorem Recoverable.sortedKeys_box (recoverable : Recoverable config version recovery) :
    recovery.box.sortedKeys = range' recovery.committedHighwater
      (recovery.nextGroupId - recovery.committedHighwater) := by
  unfold sortedKeys
  rw [recoverable.keys_box]
  have increasing : (range' recovery.committedHighwater
      (recovery.nextGroupId - recovery.committedHighwater)).Pairwise (· < ·) :=
    pairwise_lt_range'
  exact (increasing.imp fun less => less.le).insertionSort_eq

variable {restore : Mailbox Packet → Packet → Except String (Mailbox Packet)}

theorem restorePackets_eq (packets : List Packet) (retained : Mailbox Packet)
    (accepts : ∀ packet ∈ packets, ∀ filled : Mailbox Packet, packet.groupId ∉ filled.keys → restore
      filled packet = .ok (filled ++ [(packet.groupId, ⟨packet, false⟩)]))
    (distinct : (retained.keys ++ packets.map groupId).Nodup) :
    packets.foldlM restore retained
      = .ok (retained ++ packets.map fun packet => (packet.groupId, ⟨packet, false⟩)) := by
  induction packets generalizing retained with
  | nil => simp; rfl
  | cons packet rest ih =>
    have fresh : packet.groupId ∉ retained.keys := by
      intro present
      exact (nodup_append.mp distinct).2.2 _ present _ (by simp) rfl
    have remaining := ih (retained ++ [(packet.groupId, ⟨packet, false⟩)])
      (fun other mem => accepts other (mem_cons_of_mem _ mem))
      (by simpa [Mailbox.keys] using distinct)
    rw [foldlM_cons, accepts packet mem_cons_self retained fresh]
    refine remaining.trans ?_
    simp

section

variable (recoverable : Recoverable config version recovery)
include recoverable

theorem Recoverable.restored
    (accepts : ∀ packet ∈ recovery.pendingPackets, ∀ filled : Mailbox Packet, packet.groupId ∉
      filled.keys → restore filled packet = .ok (filled ++ [(packet.groupId, ⟨packet, false⟩)])) :
    recovery.pendingPackets.foldlM restore [] = .ok recovery.box := by
  rw [restorePackets_eq _ _ accepts]
  · rfl
  · show ([] ++ recovery.pendingPackets.map groupId).Nodup
    rw [nil_append, recoverable.ids]
    exact nodup_range'

theorem Recoverable.fits : ¬ (config.bound < recovery.box.length ∨ recovery.box.sortedKeys ≠
      range' recovery.committedHighwater (recovery.nextGroupId - recovery.committedHighwater)) := by
  rw [not_or, not_not]
  refine ⟨not_lt.mpr ?_, recoverable.sortedKeys_box⟩
  simpa [Recovery.box] using recoverable.bounded

/-- A provider restored from such a state satisfies the invariant with nothing handed out. -/
theorem Recoverable.good {core : Core} (box : core.box = recovery.box)
    (next : core.nextGroup = recovery.nextGroupId)
    (committed : core.committed = recovery.committedHighwater) (free : core.active = none)
    (stopped : core.drained = true → core.paused = true) (current : core.version = version) :
    Good config core recovery.committedHighwater := by
  have rows : ∀ entry ∈ core.box, ∃ packet ∈ recovery.pendingPackets,
      entry = (packet.groupId, ⟨packet, false⟩) := by
    intro entry mem
    rw [box] at mem
    obtain ⟨packet, inside, rfl⟩ := mem_map.mp mem
    exact ⟨packet, inside, rfl⟩
  have keys : core.box.keys = range' recovery.committedHighwater
      (recovery.nextGroupId - recovery.committedHighwater) := by
    rw [box, recoverable.keys_box]
  have filled : core.filled = recovery.nextGroupId := by simp [Core.filled, free, next]
  refine ⟨⟨?_, ?_, ?_, ?_⟩, ?_, ?_, ?_, ?_, ?_, ?_⟩
  · rw [keys, committed, filled]
  · exact committed.le
  · rw [filled]
    exact recoverable.cursors
  · intro entry mem
    obtain ⟨packet, inside, rfl⟩ := rows entry mem
    have lower : packet.groupId ∈ core.box.keys := mem_map_of_mem (f := Prod.fst) mem
    rw [keys, mem_range'_1] at lower
    simp only [Bool.false_eq, decide_eq_false_iff_not, not_lt]
    exact lower.1
  · intro groupId sampledUnder active
    exact absurd (free.symm.trans active) (by simp)
  · rw [box]
    simpa [Recovery.box, Core.inProduction, free] using recoverable.bounded
  · exact fun drained => ⟨stopped drained, free⟩
  · intro entry mem
    obtain ⟨packet, inside, rfl⟩ := rows entry mem
    rfl
  · intro entry mem group isGroup
    obtain ⟨packet, inside, rfl⟩ := rows entry mem
    rw [current]
    exact recoverable.sampled packet inside group isGroup
  · intro first left second right order older newer isOlder isNewer
    obtain ⟨one, inOne, rfl⟩ := rows first left
    obtain ⟨two, inTwo, rfl⟩ := rows second right
    exact recoverable.monotone one inOne two inTwo order older newer isOlder isNewer

end

end Restoring

end TinyDSV41.Training
