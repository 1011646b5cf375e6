/-
**Transfers after a stop.**

The receiver infers how far a transfer has come from the files that are there. As long as no stop leaves a
chunk, a receipt or a delivery file torn, every transfer can be resumed from the state that it finds, and
a publication and its acknowledgement can be made again.

* `Queue.transfer` — the whole sequence: start, every remaining chunk, commit.
* `transfer_completes` — it reaches a committed blob from every directory that is a part of the transfer.
* `transfers_recover` — the same for every run without torn files.
* `torn_chunk_blocks` — a torn chunk blocks its transfer for ever.
-/

import TinyDSV41.Artifacts.Exchange
import Mathlib.Data.Nat.Cast.Order.Ring

namespace TinyDSV41.Artifacts

open List Lib OrderedTable Option Queue Bool System

variable {Digest : Type} [DecidableEq Digest] (hashes : Hashes Digest)

/-! ### The whole sequence -/

def Queue.complete {Answer : Type} (queue : Queue Digest) (outcome : Outcome Digest Answer) :
    Option (Queue Digest × Answer) :=
  match outcome.2 with
  | .ok answer => some (queue.replay outcome.1, answer)
  | .error _ => none

def chunkOf (id : Digest) (content : Bytes) (index : ℕ) : Chunk Digest :=
  ⟨id, index, slice chunkBytes content index, hashes.content (slice chunkBytes content index)⟩

def Queue.receiveAll (queue : Queue Digest) (id : Digest) (content : Bytes) (cut : ℕ) :
    List ℕ → Option (Queue Digest)
  | [] => some queue
  | index :: rest => do
      let (stored, _) ← queue.complete (queue.receiveChunk hashes (chunkOf hashes id content index) cut)
      stored.receiveAll id content cut rest

def Queue.transfer (queue : Queue Digest) (role : Option Side) (manifest : Manifest Digest)
    (content : Bytes) (cut : ℕ) : Option (Queue Digest × Receipt Digest) :=
  (queue.complete (queue.start hashes role manifest)).bind fun (started, progress) =>
    (started.receiveAll hashes manifest.id content cut
      (range' progress.nextIndex (manifest.count - progress.nextIndex))).bind fun received =>
        received.complete (received.commit hashes manifest.id)

/-- A side has committed a content under a manifest. -/
def Queue.Holds (queue : Queue Digest) (manifest : Manifest Digest) (content : Bytes) : Prop :=
  ∃ entry, queue.incoming.get? manifest.id = some entry ∧ entry.manifest = manifest ∧
    entry.receipt = some (.whole (receiptOf manifest)) ∧ entry.blob = some content

variable {hashes} {roles : Side → Option Side} {role : Option Side} {queue : Queue Digest}
  {state : Exchange Digest} {entry : Incoming Digest} {published : Outgoing Digest} {id : Digest}
  {cut count : ℕ}

/-! ### One chunk, and all of them -/

theorem complete_ok {Answer : Type} {outcome : Outcome Digest Answer} {ops : List (Op Digest)}
    {answer : Answer} (same : outcome = (ops, .ok answer)) :
    queue.complete outcome = some (queue.replay ops, answer) := by
  rw [same]
  rfl

omit [DecidableEq Digest] in
/-- There are at least as many chunk files as consecutive ones. -/
theorem le_length_of_chunks (chunks : ∀ index, index < count →
    (entry.chunks.get? index).isSome = true) : count ≤ entry.chunks.length := by
  have inside : range count ⊆ entry.chunks.items.map Prod.fst := by
    intro index mem
    obtain ⟨raw, found⟩ := isSome_iff_exists.mp (chunks index (mem_range.mp mem))
    exact mem_map.mpr ⟨_, mem_items.mpr found, rfl⟩
  have shorter := (subperm_of_subset nodup_range inside).length_le
  rw [length_range, length_map] at shorter
  exact shorter

variable {content : Bytes}

omit [DecidableEq Digest] in
/-- The next index of a transfer is the number of its chunk files. -/
theorem Incoming.HasFirst.nextIndex (first : entry.HasFirst content count) : entry.nextIndex = count := by
  have present : ∀ index, (entry.chunks.get? index).isSome = decide (index < count) := by
    intro index
    rw [first index]
    split_ifs with below
    · rw [decide_eq_true below]
      rfl
    · rw [decide_eq_false below]
      rfl
  have long : count ≤ entry.chunks.length :=
    le_length_of_chunks fun index below => by rw [present, decide_eq_true below]
  unfold Incoming.nextIndex
  simp only [present]
  obtain ⟨extra, same⟩ := Nat.exists_eq_add_of_le long
  rw [same, range_add, takeWhile_append_of_pos]
  · cases extra with
    | zero => simp
    | succ extra =>
      rw [range_succ_eq_map]
      simp
  · intro index mem
    exact decide_eq_true (mem_range.mp mem)

omit [DecidableEq Digest] in
/-- The chunk files join to the content. -/
theorem Incoming.HasFirst.joined (first : entry.HasFirst content count) (indices : List ℕ)
    (inside : ∀ index ∈ indices, index < count) :
    entry.joined indices = (indices.flatMap (slice chunkBytes content), true) := by
  induction indices with
  | nil => rfl
  | cons index rest known =>
    obtain ⟨here, later⟩ := forall_mem_cons.mp inside
    have there : entry.chunks.get? index = some (slice chunkBytes content index) := by
      rw [first index, if_pos here]
    rw [Incoming.joined, there]
    simp only [known later]
    rfl

theorem Outgoing.Sound.length (sound : published.Sound hashes id) :
    published.manifest.bytes.toNat = published.blob.length := by
  rw [← sound.pins.1]
  rfl

/-- A part of a transfer takes the next chunk. -/
theorem Incoming.HasFirst.takes (first : entry.HasFirst published.blob count)
    (manifest : entry.manifest = published.manifest) (sound : published.Sound hashes id)
    (more : count < published.manifest.count) :
    entry.Takes hashes (chunkOf hashes id published.blob count) := by
  have below : count * chunkBytes < published.blob.length := by
    rw [← sound.length]
    exact (lt_sliceCount_iff (by decide)).mp more
  have length := length_slice chunkBytes published.blob count
  have announced : published.manifest.bytes = published.blob.length := sound.pins.1.symm
  refine ⟨?_, rfl, ?_, Int.natCast_nonneg _, ?_, ?_, fun later => ?_, fun raw found => ?_⟩
  · show ((slice chunkBytes published.blob count).length + 2) / 3 * 4 ≤ _
    refine Nat.mul_le_mul_right 4 (Nat.div_le_div_right ?_)
    omega
  · rw [manifest]
    exact sound.valid
  · show 0 < entry.manifest.bytes - (count : ℤ) * chunkBytes
    rw [manifest, announced]
    omega
  · show ((slice chunkBytes published.blob count).length : ℤ) = min (chunkBytes : ℤ)
      (entry.manifest.bytes - (count : ℤ) * chunkBytes)
    rw [manifest, announced, length, Nat.cast_min, Nat.cast_sub below.le, Nat.cast_mul]
  · have positive : count ≠ 0 := fun zero => later (by rw [zero]; rfl)
    show (entry.chunks.get? (count - 1)).isSome = true
    rw [first, if_pos (by omega)]
    rfl
  · have absent : entry.chunks.get? count = none := by rw [first, if_neg (lt_irrefl _)]
    have here : entry.chunks.get? count = some raw := found
    rw [absent] at here
    cases here

/-- The remaining chunks of a content are received. -/
theorem receiveAll_rest (cut : ℕ) (manifest : entry.manifest = published.manifest)
    (sound : published.Sound hashes id) (extra : ℕ) (found : queue.incoming.get? id = some entry)
    (first : entry.HasFirst published.blob count)
    (rest : count + extra = published.manifest.count) :
    ∃ done chunks, queue.receiveAll hashes id published.blob cut (range' count extra) = some done ∧
      done.incoming.get? id = some { entry with chunks := chunks } ∧
      Incoming.HasFirst { entry with chunks := chunks } published.blob published.manifest.count := by
  induction extra generalizing queue entry count with
  | zero =>
    subst rest
    exact ⟨queue, entry.chunks, rfl, found, first⟩
  | succ extra known =>
    have takes := first.takes manifest sound (by omega)
    have absent : ¬ (entry.chunks.get? count).isSome = true := by
      rw [first count, if_neg (lt_irrefl _)]
      exact Bool.noConfusion
    have stored : queue.receiveChunk hashes (chunkOf hashes id published.blob count) cut = _ :=
      receiveChunk_takes cut found takes
    have here : (chunkOf hashes id published.blob count).index.toNat = count := Int.toNat_natCast count
    rw [here, if_neg absent] at stored
    -- The chunk is created, and then filled.
    have next : (queue.replay [.openChunk id count
        ((slice chunkBytes published.blob count).take cut), .fillChunk id count
          (slice chunkBytes published.blob count)]).incoming.get? id
        = some { entry with
            chunks := entry.chunks.push count (slice chunkBytes published.blob count) } := by
      show ((queue.receiving id _).receiving id _).incoming.get? id = _
      rw [receiving_receiving]
      refine (get?_modify_some.mpr ⟨entry, found, rfl⟩).trans ?_
      rw [if_pos rfl]
      simp only [push_push]
    have rest' : count + 1 + extra = published.manifest.count := by omega
    have same : Incoming.manifest { entry with
        chunks := entry.chunks.push count (slice chunkBytes published.blob count) }
        = published.manifest := manifest
    obtain ⟨done, chunks, received, there, last⟩ := known same next first.push rest'
    refine ⟨done, chunks, ?_, there, last⟩
    rw [range'_succ, receiveAll, complete_ok stored]
    exact received

/-- A commit of all chunks, or of what is committed. -/
theorem commit_completes (manifest : entry.manifest = published.manifest)
    (sound : published.Sound hashes id) (found : queue.incoming.get? id = some entry)
    (fine : entry.Sound hashes id) (readable : entry.receipt ≠ some .torn)
    (content : ∀ blob, entry.blob = some blob → blob = published.blob)
    (first : entry.HasFirst published.blob published.manifest.count) :
    ∃ done, queue.complete (queue.commit hashes id) = some (done, receiptOf published.manifest) ∧
      done.Holds published.manifest published.blob := by
  have named : published.manifest.id = id := sound.named
  have receipt : commitReceipt id entry.manifest = receiptOf published.manifest := by
    rw [manifest, ← named]
    rfl
  have valid : validateManifest hashes entry.manifest = .ok () := fine.valid
  rcases there : entry.receipt with _ | _ | written
  · have all : (range entry.manifest.count).flatMap (slice chunkBytes published.blob)
        = published.blob := by
      unfold Manifest.count
      rw [manifest, sound.length]
      exact flatMap_slice_count (by decide) _
    have joined := first.joined (range entry.manifest.count) fun index mem => by
      rw [manifest] at mem
      exact mem_range.mp mem
    rw [all] at joined
    have pins : Pins hashes entry.manifest published.blob := by
      rw [manifest]
      exact sound.pins
    have committed := commit_joined found valid there joined pins
    rw [receipt] at committed
    refine ⟨_, complete_ok committed, ?_⟩
    rw [replay_replace (clearOps_rebuilds entry id)]
    refine ⟨{ entry with
      blob := some published.blob
      blobPartial := none
      receipt := some (.whole (receiptOf published.manifest)) }, ?_, manifest, rfl, rfl⟩
    rw [named]
    exact get?_modify_some.mpr ⟨entry, found, (if_pos rfl).symm⟩
  · exact absurd there readable
  · have same : written = receiptOf published.manifest := by
      rw [fine.receipt written there, manifest]
    obtain ⟨blob, stored⟩ := isSome_iff_exists.mp (fine.stored (by rw [there]; rfl))
    have answered : queue.commit hashes id = ([], .ok (receiptOf published.manifest)) := by
      simp only [commit, found, valid, there, receipt, same, ne_eq, not_true_eq_false, if_false]
      rfl
    refine ⟨queue, complete_ok answered, entry, ?_, manifest, by rw [there, same], ?_⟩
    · rw [named]
      exact found
    · rw [stored, content blob stored]

/-! ### Start -/

/-- The checks of `start`. -/
structure Admits (hashes : Hashes Digest) (role : Option Side) (queue : Queue Digest)
    (manifest : Manifest Digest) : Prop where
  valid : validateManifest hashes manifest = .ok ()
  fits : Fits role manifest.kind
  agrees : ∀ old ∈ queue.incoming.values,
    old.manifest.isFor manifest.kind manifest.key = true → old.manifest = manifest
  room : queue.incoming.get? manifest.id = none → queue.bounded hashes manifest.bytes = .ok ()
  same : ∀ entry, queue.incoming.get? manifest.id = some entry → entry.manifest = manifest

theorem start_admits (admits : Admits hashes role queue manifest) :
    queue.start hashes role manifest = match queue.incoming.get? manifest.id with
      | none => ([.makeTemporary, .writeManifest .torn, .writeManifest (.whole manifest),
          .receiveEntry manifest.id], .ok ⟨manifest.id, 0, false⟩)
      | some entry => ([], .ok ⟨manifest.id, entry.nextIndex, entry.receipt.isSome⟩) := by
  have agrees : ¬ queue.incoming.values.any (fun old =>
      old.manifest.isFor manifest.kind manifest.key && decide (old.manifest ≠ manifest)) = true := by
    intro conflict
    obtain ⟨old, mem, differs⟩ := any_eq_true.mp conflict
    rw [and_eq_true, decide_eq_true_iff] at differs
    exact differs.2 (admits.agrees old mem differs.1)
  unfold start
  simp only [admits.valid]
  rw [if_neg (not_not.mpr admits.fits), if_neg agrees]
  cases there : queue.incoming.get? manifest.id with
  | none => simp only [admits.room there]
  | some entry =>
    simp only [admits.same entry there, ne_eq, not_true_eq_false, if_false]
    rfl

variable {progress : Progress Digest}

/-- A start that is answered has passed its checks. -/
theorem admits_of_answered
    (answered : (queue.start hashes role manifest).2 = .ok progress) :
    Admits hashes role queue manifest := by
  unfold start at answered
  split at answered
  case h_1 => cases answered
  case h_2 valid =>
    split_ifs at answered with fits conflict
    · cases answered
    · have agrees : ∀ old ∈ queue.incoming.values,
          old.manifest.isFor manifest.kind manifest.key = true → old.manifest = manifest := by
        intro old mem here
        by_contra differs
        exact conflict (any_eq_true.mpr ⟨old, mem, by simp [here, differs]⟩)
      split at answered
      case h_1 absent =>
        split at answered
        case h_1 => cases answered
        case h_2 room =>
          refine ⟨valid, fits, agrees, fun _ => room, fun entry there => ?_⟩
          rw [absent] at there
          cases there
      case h_2 entry found =>
        split_ifs at answered with other
        · cases answered
        · refine ⟨valid, fits, agrees, fun absent => ?_, fun entry' there => ?_⟩
          · rw [found] at absent
            cases absent
          · rw [found] at there
            rw [← some.inj there]
            exact not_not.mp other
    · cases answered

theorem Admits.again (admits : Admits hashes role queue manifest)
    (count : ℕ) : Admits hashes role
      (queue.replay ((queue.start hashes role manifest).1.take count)) manifest := by
  have change := start_change hashes role queue manifest count
  generalize queue.replay ((queue.start hashes role manifest).1.take count) = after at change
  cases change with
  | rest => exact ⟨admits.valid, admits.fits, admits.agrees, admits.room, admits.same⟩
  | started temporaries valid fits agrees room absent =>
    refine ⟨valid, fits, fun old mem here => ?_, fun missing => ?_, fun entry found => ?_⟩
    · obtain ⟨id, found⟩ := mem_values.mp mem
      obtain ⟨-, rfl⟩ | ⟨-, old⟩ := push_cases found
      · rfl
      · exact agrees _ (mem_values.mpr ⟨id, old⟩) here
    · have there : (queue.incoming.push manifest.id
        ⟨manifest, ∅, none, none, none⟩).get? manifest.id = none := missing
      rw [get?_push_self] at there
      cases there
    · obtain ⟨-, rfl⟩ | ⟨-, old⟩ := push_cases found
      · rfl
      · exact admits.same entry old

theorem transfer_eq {started received : Queue Digest}
    (starts : queue.complete (queue.start hashes role manifest) = some (started, progress))
    (sends : started.receiveAll hashes manifest.id content cut (range' progress.nextIndex
      (manifest.count - progress.nextIndex)) = some received) :
    queue.transfer hashes role manifest content cut
      = received.complete (received.commit hashes manifest.id) := by
  unfold transfer
  rw [starts, bind_some]
  simp only
  rw [sends, bind_some]

/-- **The whole sequence completes** from every queue that is a part of the transfer. -/
theorem transfer_completes (collisionFree : hashes.CollisionFree) (sound : queue.Sound hashes)
    (fine : published.Sound hashes id) (admits : Admits hashes role queue published.manifest)
    (part : ∀ entry, queue.incoming.get? id = some entry → Transfers entry published) (cut : ℕ) :
    ∃ done, queue.transfer hashes role published.manifest published.blob cut
        = some (done, receiptOf published.manifest) ∧
      done.Holds published.manifest published.blob := by
  have named : published.manifest.id = id := fine.named
  -- The directory after the start, and its next index.
  obtain ⟨ops, entry, count, flag, started, found, transfers, next, first, whole, entrySound⟩ :
      ∃ ops entry count flag, queue.start hashes role published.manifest = (ops, .ok ⟨id, count, flag⟩) ∧
        (queue.replay ops).incoming.get? id = some entry ∧
        entry.manifest = published.manifest ∧ entry.receipt ≠ some .torn ∧
        entry.HasFirst published.blob count ∧ count ≤ published.manifest.count ∧
        entry.Sound hashes id := by
    have starts := start_admits admits
    rw [named] at starts
    cases there : queue.incoming.get? id with
    | none =>
      rw [there] at starts
      refine ⟨_, ⟨published.manifest, ∅, none, none, none⟩, 0, false, starts, ?_, rfl,
        ?_, fun _ => rfl, Nat.zero_le _, fine.valid, named, ?_, ?_, ?_⟩
      · exact get?_push_self
      all_goals exact nofun
    | some entry =>
      rw [there] at starts
      obtain ⟨manifest, ⟨count, whole, first⟩, readable⟩ := part entry there
      have starts' : queue.start hashes role published.manifest
          = ([], .ok ⟨id, count, entry.receipt.isSome⟩) := by
        rw [starts, ← first.nextIndex]
      rw [manifest] at whole
      exact ⟨[], entry, count, _, starts', there, manifest, readable, first, whole,
        sound.incoming _ _ there⟩
  obtain ⟨received, chunks, sends, there, all⟩ := receiveAll_rest cut transfers fine
    (published.manifest.count - count) found first (by omega)
  have manifest : Incoming.manifest { entry with chunks := chunks } = published.manifest := transfers
  obtain ⟨done, commits, holds⟩ := commit_completes manifest fine there
    ⟨entrySound.valid, entrySound.named, entrySound.pins, entrySound.stored, entrySound.receipt⟩ next
    (fun blob stored => pins_unique collisionFree entrySound.valid fine.valid
      (entrySound.named.trans named.symm) (entrySound.pins blob stored) fine.pins) all
  refine ⟨done, ?_, holds⟩
  rw [← named] at sends commits
  rw [transfer_eq (complete_ok started) sends]
  exact commits

/-! ### Publish and acknowledge -/

/-- What `publish` finds of its content: it is there, or there is room for it. -/
structure Publishes (hashes : Hashes Digest) (queue : Queue Digest) (kind : Kind) (key : String)
    (content : Bytes) : Prop where
  valid : validateManifest hashes (manifestOf hashes kind key content) = .ok ()
  place : (∃ old, queue.outgoing.values.find? (fun old => old.manifest.isFor kind key) = some old ∧
      old.manifest = manifestOf hashes kind key content) ∨
    queue.outgoing.values.find? (fun old => old.manifest.isFor kind key) = none ∧
      queue.bounded hashes (manifestOf hashes kind key content).bytes = .ok () ∧
      queue.outgoing.get? (manifestOf hashes kind key content).id = none

theorem publishes_of_answered {kind : Kind} {key : String} {pinned copied : Bytes}
    (answered : (queue.publish hashes kind key pinned copied).2 = .ok manifest) :
    Publishes hashes queue kind key pinned ∧ manifest = manifestOf hashes kind key pinned := by
  unfold publish at answered
  simp only at answered
  split at answered
  case h_1 => cases answered
  case h_2 valid =>
    split at answered
    case h_1 old found =>
      split_ifs at answered with differs
      · cases answered
      · exact ⟨⟨valid, Or.inl ⟨old, found, not_not.mp differs⟩⟩, (Except.ok.inj answered).symm⟩
    case h_2 fresh =>
      split at answered
      case h_1 => cases answered
      case h_2 room =>
        split_ifs at answered with pins there
        · rw [not_eq_true, isSome_eq_false_iff, isNone_iff_eq_none] at there
          exact ⟨⟨valid, Or.inr ⟨fresh, room, there⟩⟩, (Except.ok.inj answered).symm⟩

/-- A content that is found or has room is published. -/
theorem Publishes.completes {kind : Kind} {key : String}
    (publishes : Publishes hashes queue kind key content) (sound : queue.Sound hashes) :
    ∃ done, queue.complete (queue.publish hashes kind key content content)
        = some (done, manifestOf hashes kind key content) ∧
      ∃ entry, done.outgoing.get? (manifestOf hashes kind key content).id = some entry ∧
        entry.manifest = manifestOf hashes kind key content ∧
        (entry.delivery = none ∨
          queue.outgoing.get? (manifestOf hashes kind key content).id = some entry) := by
  obtain ⟨valid, ⟨old, found, same⟩ | ⟨fresh, room, absent⟩⟩ := publishes
  · have answered : queue.publish hashes kind key content content
        = ([], .ok (manifestOf hashes kind key content)) := by
      unfold publish
      simp only [valid, found, same, ne_eq, not_true_eq_false, if_false]
      rfl
    obtain ⟨id, there⟩ := mem_values.mp (mem_of_find?_eq_some found)
    have named := (sound.outgoing _ _ there).named
    rw [same] at named
    rw [← named] at there
    exact ⟨queue, complete_ok answered, old, there, same, Or.inr there⟩
  · have pins : Pins hashes (manifestOf hashes kind key content) content := ⟨rfl, rfl⟩
    have answered : queue.publish hashes kind key content content
        = ([.makeTemporary, .writeBlob [], .writeBlob content] ++ [.writeManifest .torn,
            .writeManifest (.whole (manifestOf hashes kind key content))] ++
          [.publishEntry (manifestOf hashes kind key content).id],
          .ok (manifestOf hashes kind key content)) := by
      unfold publish
      simp only [valid, fresh, room]
      rw [if_neg (not_not.mpr pins), absent]
      rfl
    exact ⟨_, complete_ok answered, _, get?_push_self, rfl, Or.inl rfl⟩

theorem Publishes.again {kind : Kind} {key : String} {pinned copied : Bytes}
    (publishes : Publishes hashes queue kind key pinned) (count : ℕ) :
    Publishes hashes (queue.replay ((queue.publish hashes kind key pinned copied).1.take count))
      kind key pinned := by
  have change := publish_change hashes none queue kind key pinned copied count
  generalize queue.replay ((queue.publish hashes kind key pinned copied).1.take count) = after at change
  cases change with
  | rest => exact ⟨publishes.valid, publishes.place⟩
  | published temporaries valid fresh room pins absent =>
    refine ⟨valid, Or.inl ⟨⟨manifestOf hashes kind key pinned, copied, none⟩, ?_, rfl⟩⟩
    rw [values_push absent, find?_append, find?_eq_none.mpr, none_or,
      find?_singleton, if_pos]
    · exact Manifest.isFor_iff.mpr ⟨rfl, rfl⟩
    · intro entry mem
      rw [fresh entry mem]
      exact Bool.noConfusion

theorem acknowledge_completes (sound : published.Sound hashes id)
    (found : queue.outgoing.get? id = some published)
    (readable : published.delivery = none ∨
      published.delivery = some (.whole (receiptOf published.manifest))) :
    ∃ done, queue.complete (queue.acknowledge hashes (receiptOf published.manifest))
        = some (done, receiptOf published.manifest) ∧ ∃ later, done.outgoing.get? id = some later ∧
          later.delivery = some (.whole (receiptOf published.manifest)) := by
  have named : (receiptOf published.manifest).id = id := sound.named
  have there : queue.outgoing.get? (receiptOf published.manifest).id = some published := by
    rw [named]
    exact found
  have answered := acknowledge_bound there sound.valid rfl readable
  have done : (queue.acknowledge hashes (receiptOf published.manifest)).2
      = .ok (receiptOf published.manifest) := by rw [answered]
  obtain ⟨later, found', -, -, delivered, -⟩ := acknowledge_recorded done
  rw [answered] at found'
  exact ⟨_, complete_ok answered, later, (congrArg (get? _) named.symm).trans found',
    delivered⟩

/-! ### Runs without torn files -/

/-- Every directory under `incoming` has a kind that its side takes. -/
theorem fits_run {guard : Exchange Digest → Action Digest → Prop}
    (reached : (exchangeSystem hashes roles).Reachable guard state) (side : Side) :
    ∀ id entry, (state.queues side).incoming.get? id = some entry →
      Fits (roles side) entry.manifest.kind := by
  refine reached.invariant (fun state => ∀ side id entry,
    (state.queues side).incoming.get? id = some entry → Fits (roles side) entry.manifest.kind)
    ?_ ?_ side
  · rintro state ⟨empty, -⟩ side id entry found
    rw [empty] at found
    cases found
  · intro state action next _ stepped fits side id entry found
    cases stepped
    obtain ⟨after, change, acts, -⟩ := act_cases hashes roles state action
    have kept : ∀ {change : Incoming Digest → Incoming Digest} {other : Digest},
        ∀ {id entry}, ((state.queues action.side).receiving other change).incoming.get? id
          = some entry → (∀ entry, (change entry).manifest = entry.manifest) →
        Fits (roles action.side) entry.manifest.kind := by
      intro change other id entry found same
      obtain ⟨before, there, rfl⟩ := get?_modify_some.mp found
      split_ifs
      · rw [same]
        exact fits _ _ _ there
      · exact fits _ _ _ there
    obtain ⟨rfl, same⟩ | ⟨-, same⟩ := act_queue after acts side
    · rw [same] at found
      generalize action.call = call at change
      cases change with
      | rest | published | delivered => exact fits _ _ _ found
      | started temporaries valid fit agrees room absent =>
        rcases push_cases found with ⟨-, rfl⟩ | ⟨-, found⟩
        · exact fit
        · exact fits _ _ _ found
      | stored | rebuilt | replaced | committed => exact kept found fun _ => rfl
    · rw [same] at found
      exact fits _ _ _ found

/-- Every transfer, publication and acknowledgement can be made again. -/
structure Recoverable (hashes : Hashes Digest) (roles : Side → Option Side)
    (state : Exchange Digest) : Prop where
  /-- A transfer that `start` takes reaches a committed blob. -/
  transfers : ∀ side id published, (state.queues side.other).outgoing.get? id = some published →
    (∃ progress, ((state.queues side).start hashes (roles side) published.manifest).2 = .ok progress) →
    ∀ cut, ∃ done, (state.queues side).transfer hashes (roles side) published.manifest published.blob
        cut = some (done, receiptOf published.manifest) ∧
      done.Holds published.manifest published.blob
  /-- `start` takes a transfer of which something has been received. -/
  resumed : ∀ side id entry, (state.queues side).incoming.get? id = some entry →
    ∃ progress, ((state.queues side).start hashes (roles side) entry.manifest).2 = .ok progress
  /-- `start` takes a transfer whose start was stopped. -/
  restarted : ∀ side manifest progress count,
    ((state.queues side).start hashes (roles side) manifest).2 = .ok progress →
    ∃ progress, (((state.queues side).replay
      (((state.queues side).start hashes (roles side) manifest).1.take count)).start hashes
        (roles side) manifest).2 = .ok progress
  /-- A publication that was stopped is made again, and acknowledged. -/
  republished : ∀ side kind key pinned copied manifest count,
    ((state.queues side).publish hashes kind key pinned copied).2 = .ok manifest →
    ∃ done, ((state.queues side).replay
        (((state.queues side).publish hashes kind key pinned copied).1.take count)).complete
          (((state.queues side).replay
            (((state.queues side).publish hashes kind key pinned copied).1.take count)).publish
              hashes kind key pinned pinned) = some (done, manifest) ∧
      (done.acknowledge hashes (receiptOf manifest)).2 = .ok (receiptOf manifest)
  /-- A published artifact is acknowledged. -/
  acknowledged : ∀ side id published, (state.queues side).outgoing.get? id = some published →
    ∃ done, (state.queues side).complete
        ((state.queues side).acknowledge hashes (receiptOf published.manifest))
          = some (done, receiptOf published.manifest) ∧
      ∃ later, done.outgoing.get? id = some later ∧
        later.delivery = some (.whole (receiptOf published.manifest))

/-- **Transfers recover.** If the middleman forwards what the sides have answered, and no stop falls
inside of the writing of a chunk, a receipt or a delivery file, every transfer, publication and
acknowledgement can be made again from every state that is reached. -/
theorem transfers_recover (hashes : Hashes Digest) (collisionFree : hashes.CollisionFree)
    (roles : Side → Option Side) (state : Exchange Digest)
    (reached : (exchangeSystem hashes roles).Reachable (faithful hashes roles) state) :
    Recoverable hashes roles state := by
  have sound : ∀ side, (state.queues side).Sound hashes :=
    sound_run (reached.mono fun _ _ _ => trivial)
  have carried := carried_run reached
  have readable : ∀ side id published, (state.queues side).outgoing.get? id = some published →
      published.delivery = none ∨ published.delivery = some (.whole (receiptOf published.manifest)) := by
    intro side id published found
    cases there : published.delivery with
    | none => exact Or.inl rfl
    | some file => exact Or.inr (by rw [(carried.delivered _ _ _ found _ there).1])
  refine ⟨?transfers, ?resumed, ?restarted, ?republished, ?acknowledged⟩
  case transfers =>
    rintro side id published found ⟨progress, started⟩ cut
    refine transfer_completes collisionFree (sound side) ((sound _).outgoing _ _ found)
      (admits_of_answered started) (fun entry there => ?_) cut
    obtain ⟨published', found', transfers⟩ := carried.incoming _ _ _ there
    obtain rfl := Option.mem_unique found found'
    exact transfers
  case resumed =>
    intro side id entry found
    have fine := (sound side).incoming _ _ found
    have there : (state.queues side).incoming.get? entry.manifest.id = some entry := by
      rw [fine.named]
      exact found
    have admits : Admits hashes (roles side) (state.queues side) entry.manifest := by
      refine ⟨fine.valid, fits_run reached side _ _ found, fun old member here => ?_,
        fun absent => ?_, fun other found' => ?_⟩
      · obtain ⟨other, known⟩ := mem_values.mp member
        exact (sound side).agreement _ _ _ _ known found here
      · rw [there] at absent
        cases absent
      · rw [there] at found'
        rw [← some.inj found']
    rw [start_admits admits, there]
    exact ⟨_, rfl⟩
  case restarted =>
    intro side manifest progress count started
    rw [start_admits ((admits_of_answered started).again count)]
    cases (replay (state.queues side) _).incoming.get? manifest.id with
    | none | some => exact ⟨_, rfl⟩
  case republished =>
    intro side kind key pinned copied manifest count answered
    obtain ⟨publishes, rfl⟩ := publishes_of_answered answered
    have change := publish_change hashes none (state.queues side) kind key pinned copied count
    obtain ⟨done, completes, entry, there, same, fresh⟩ :=
      (publishes.again count).completes (change.sound (sound side))
    refine ⟨done, completes, ?_⟩
    have readable : entry.delivery = none ∨
        entry.delivery = some (.whole (receiptOf entry.manifest)) := by
      obtain none | found := fresh
      · exact Or.inl none
      · generalize replay (state.queues side) _ = after at change found
        cases change with
        | rest => exact readable _ _ _ found
        | published temporaries valid fresh room pins absent =>
          rw [get?_push_self] at found
          exact Or.inl (by rw [← some.inj found])
    rw [same] at readable
    have valid : validateManifest hashes entry.manifest = .ok () := by
      rw [same]
      exact publishes.valid
    rw [acknowledge_bound there valid (by rw [same]) readable]
  case acknowledged =>
    intro side id published found
    exact acknowledge_completes ((sound side).outgoing _ _ found) found (readable _ _ _ found)

/-! ### A torn chunk -/

section Torn

variable {manifest : Manifest Digest} {written : Bytes} {after : Queue Digest} {call : Call Digest}
  {settled : Prop}

/-- The receiver has a chunk file for a manifest of one chunk, and has not committed. -/
def TornAt (manifest : Manifest Digest) (written : Bytes) (queue : Queue Digest) : Prop :=
  ∃ entry, queue.incoming.get? manifest.id = some entry ∧ entry.manifest = manifest ∧
    entry.chunks.get? 0 = some written ∧ entry.receipt = none

theorem Change.tornAt (change : Change hashes role queue settled call after)
    (single : manifest.count = 1) (short : ¬ Pins hashes manifest written)
    (torn : TornAt manifest written queue) : TornAt manifest written after := by
  obtain ⟨entry, found, same, there, pending⟩ := torn
  obtain ⟨later, found', grown⟩ := change.grows.incoming _ _ found
  refine ⟨later, found', grown.manifest.trans same, grown.chunks _ _ there, ?_⟩
  have kept : ∀ {change : Incoming Digest → Incoming Digest} {id : Digest},
      (queue.receiving id change).incoming.get? manifest.id = some later →
      (∀ entry, (change entry).receipt = entry.receipt) → later.receipt = none := by
    intro change id found' receipt
    obtain ⟨before, earlier, rfl⟩ := get?_modify_some.mp found'
    obtain rfl := Option.mem_unique found earlier
    split_ifs
    · rw [receipt]
      exact pending
    · exact pending
  cases change with
  | rest | published | delivered =>
    obtain rfl := Option.mem_unique found found'
    exact pending
  | started temporaries valid fits agrees room absent =>
    rcases push_cases found' with ⟨-, rfl⟩ | ⟨-, found'⟩
    · rfl
    · obtain rfl := Option.mem_unique found found'
      exact pending
  | stored | rebuilt | replaced => exact kept found' fun _ => rfl
  | @committed id other content file known waiting joined pins =>
    obtain ⟨before, earlier, rfl⟩ := get?_modify_some.mp found'
    obtain rfl := Option.mem_unique found earlier
    split_ifs with here
    · -- A commit would join the torn chunk, which the manifest does not pin.
      subst here
      obtain rfl := Option.mem_unique found known
      have torn : entry.joined (range entry.manifest.count) = (written ++ [], true) := by
        rw [same, single]
        simp only [range_one, Incoming.joined, there]
      rw [torn, append_nil] at joined
      rw [(Prod.mk.inj joined).1, ← same] at short
      exact absurd pins short
    · exact pending

theorem complete_some {Answer : Type} {outcome : Outcome Digest Answer} {answer : Answer}
    (completed : queue.complete outcome = some (after, answer)) :
    outcome.2 = .ok answer ∧ after = queue.replay (outcome.1.take outcome.1.length) := by
  unfold complete at completed
  rw [take_length]
  split at completed
  case h_1 given same =>
    cases completed
    exact ⟨same, rfl⟩
  case h_2 => cases completed

section

variable (single : manifest.count = 1) (short : ¬ Pins hashes manifest written)
include single short

theorem receiveAll_tornAt {id : Digest} (indices : List ℕ) (torn : TornAt manifest written queue)
    (received : queue.receiveAll hashes id content cut indices = some after) :
    TornAt manifest written after := by
  induction indices generalizing queue with
  | nil =>
    cases received
    exact torn
  | cons index rest known =>
    obtain ⟨⟨stored, answer⟩, completed, later⟩ := bind_eq_some_iff.mp received
    obtain ⟨-, rfl⟩ := complete_some completed
    have change := receiveChunk_change hashes none queue (chunkOf hashes id content index) cut
      (queue.receiveChunk hashes (chunkOf hashes id content index) cut).1.length
    exact known (change.tornAt single short torn) later

/-- **A torn chunk blocks its transfer**: the whole sequence does not reach a commit. -/
theorem torn_chunk_blocks (torn : TornAt manifest written queue) (content : Bytes) (cut : ℕ) :
    queue.transfer hashes role manifest content cut = none := by
  rw [eq_none_iff_forall_ne_some]
  rintro ⟨done, receipt⟩ completed
  obtain ⟨⟨started, progress⟩, starts, rest⟩ := bind_eq_some_iff.mp completed
  obtain ⟨received, sends, commits⟩ := bind_eq_some_iff.mp rest
  obtain ⟨-, rfl⟩ := complete_some starts
  have start := start_change hashes role queue manifest (queue.start hashes role manifest).1.length
  have before := start.tornAt single short torn
  have between := receiveAll_tornAt single short _ before sends
  obtain ⟨answered, same⟩ := complete_some commits
  have commit := commit_change hashes role received manifest.id
    (received.commit hashes manifest.id).1.length
  have behind := commit.tornAt single short between
  rw [← same] at behind
  obtain ⟨entry, found, -, -, pending⟩ := behind
  obtain ⟨entry', found', -, recorded, -⟩ := commit_recorded answered
  rw [take_length] at same
  rw [← same, found] at found'
  rw [← some.inj found', pending] at recorded
  cases recorded

theorem tornAt_run {side : Side} {later : Exchange Digest}
    (torn : TornAt manifest written (state.queues side))
    (path : (exchangeSystem hashes roles).Leads always state later) :
    TornAt manifest written (later.queues side) := by
  refine path.preserves (fun later => TornAt manifest written (later.queues side)) ?_ torn
  intro before action next _ stepped torn
  cases stepped
  obtain ⟨after, change, acts, -⟩ := act_cases hashes roles before action
  obtain ⟨rfl, same⟩ | ⟨-, same⟩ := act_queue after acts side
  · rw [same]
    exact change.tornAt single short torn
  · rw [same]
    exact torn

end

end Torn

/-- A transfer whose only chunk is created and not filled. -/
def tornTransfer : List (Action Spelled) :=
  [completeCall .cpu (.publish .sealedGroup "k" [7] [7]), completeCall .cpu .next,
    completeCall .gpu (.start sampleManifest), completeCall .cpu (.chunk sampleManifest.id 0),
    ⟨.gpu, .receiveChunk sampleChunk, 0, some 1⟩]

/-- A transfer whose files were created in order is blocked for ever by one stop. -/
theorem torn_transfer_blocked : ∃ state, (exchangeSystem spelledHashes some).Reachable forwards state ∧
    ((state.queues .gpu).start spelledHashes (some .gpu) sampleManifest).2.toOption.isSome = true ∧
    ∀ later, (exchangeSystem spelledHashes some).Leads always state later →
      ∀ cut, (later.queues .gpu).transfer spelledHashes (some .gpu) sampleManifest [7] cut = none := by
  have executed : ((exchangeSystem spelledHashes some).run forwards nothingYet tornTransfer).any
      (fun state =>
        ((state.queues .gpu).start spelledHashes (some .gpu) sampleManifest).2.toOption.isSome &&
        ((state.queues .gpu).incoming.get? sampleManifest.id).any fun entry =>
          decide (entry.manifest = sampleManifest ∧ entry.chunks.get? 0 = some []) &&
            entry.receipt.isNone) = true := by
    decide +kernel
  obtain ⟨state, reached, holds⟩ := (any_eq_true _ _).mp executed
  rw [and_eq_true] at holds
  obtain ⟨entry, found, torn⟩ := (any_eq_true _ _).mp holds.2
  rw [and_eq_true, decide_eq_true_iff, isNone_iff_eq_none] at torn
  have initial : (exchangeSystem spelledHashes some).initial nothingYet := ⟨rfl, rfl⟩
  refine ⟨state, reachable_of_run initial reached, holds.1, fun later path cut => ?_⟩
  have single : sampleManifest.count = 1 := by decide
  have short : ¬ Pins spelledHashes sampleManifest [] := by decide
  exact torn_chunk_blocks single short
    (tornAt_run single short ⟨entry, found, torn.1.1, torn.1.2, torn.2⟩ path) _ _

def stoppedCommit : List (Action Spelled) :=
  [completeCall .cpu (.publish .sealedGroup "k" [7] [7]), completeCall .cpu .next,
    completeCall .gpu (.start sampleManifest), completeCall .cpu (.chunk sampleManifest.id 0),
    completeCall .gpu (.receiveChunk sampleChunk), ⟨.gpu, .commit sampleManifest.id, 0, some 3⟩]

/-- A transfer that is stopped between its blob and its receipt is recoverable. -/
theorem stopped_commit_recovers : ∃ state, Recoverable spelledHashes some state ∧
    ((state.queues .gpu).incoming.get? sampleManifest.id).any
      (fun entry => entry.blob.isSome && entry.receipt.isNone) = true := by
  have executed : ((exchangeSystem spelledHashes some).run (faithful spelledHashes some) nothingYet
      stoppedCommit).any (fun state => ((state.queues .gpu).incoming.get? sampleManifest.id).any
        fun entry => entry.blob.isSome && entry.receipt.isNone) = true := by
    decide +kernel
  obtain ⟨state, reached, holds⟩ := (any_eq_true _ _).mp executed
  have initial : (exchangeSystem spelledHashes some).initial nothingYet := ⟨rfl, rfl⟩
  exact ⟨state, transfers_recover spelledHashes spelled_collisionFree some state
    (reachable_of_run initial reached), holds⟩

end TinyDSV41.Artifacts
