/-
**Artifacts between two relays.**

A middleman carries manifests, chunks and receipts between the queues of two sides. It calls a side with
what it likes; a faithful one only calls with what the other side has answered. A side can be stopped
inside of any call.

* `exchangeSystem` — the runs of the two queues.
* `Bound` — what holds whatever the middleman sends.
* `Faithful` — what holds besides if it only forwards.
* `artifact_exchange` — both, and calls that are repeated.
-/

import TinyDSV41.Artifacts.QueueInvariants
import TinyDSV41.Lib.Transition

namespace TinyDSV41.Artifacts

open Lib Option Queue System Outcome
open OrderedTable (get?_modify_some get?_push push_cases)

variable {Digest : Type} [DecidableEq Digest]

/-! ### Runs -/

/-- The queues of both sides, and what each of them has answered. -/
structure Exchange (Digest : Type) where
  queues : Side → Queue Digest
  sent : List (Side × Answer Digest)

/-- A call on a side. It may be stopped after a number of operations, and a chunk that it creates has a
number of its bytes before it has the others. -/
structure Action (Digest : Type) where
  side : Side
  call : Call Digest
  cut : ℕ
  stop : Option ℕ

def Exchange.serve (hashes : Hashes Digest) (roles : Side → Option Side) (state : Exchange Digest)
    (action : Action Digest) : Outcome Digest (Answer Digest) :=
  (state.queues action.side).serve hashes (roles action.side) action.cut action.call

def Exchange.act (hashes : Hashes Digest) (roles : Side → Option Side) (state : Exchange Digest)
    (action : Action Digest) : Exchange Digest :=
  match action.stop, state.serve hashes roles action with
  | some count, (ops, _) =>
    { state with
      queues := Function.update state.queues action.side
        ((state.queues action.side).replay (ops.take count)) }
  | none, (ops, .error _) =>
    { state with
      queues := Function.update state.queues action.side ((state.queues action.side).replay ops) }
  | none, (ops, .ok answer) =>
    { queues := Function.update state.queues action.side
        ((state.queues action.side).replay ops)
      sent := (action.side, answer) :: state.sent }

/-- Two empty queues, whose calls are made in any order. -/
def exchangeSystem (hashes : Hashes Digest) (roles : Side → Option Side) :
    System (Exchange Digest) (Action Digest) where
  initial state := state.queues = (fun _ => empty) ∧ state.sent = []
  step state action := some (state.act hashes roles action)

/-- The middleman calls a side with what the other side has answered. -/
def forwards (state : Exchange Digest) (action : Action Digest) : Prop :=
  match action.call with
  | .start manifest => (action.side.other, .next (some manifest)) ∈ state.sent
  | .receiveChunk value => (action.side.other, .chunk value) ∈ state.sent
  | .acknowledge receipt => (action.side.other, .committed receipt) ∈ state.sent
  | .publish _ _ _ _ | .next | .chunk _ _ | .commit _ => True

/-- No stop falls inside of the writing of a chunk, a receipt or a delivery file. -/
def clean (hashes : Hashes Digest) (roles : Side → Option Side) (state : Exchange Digest)
    (action : Action Digest) : Prop :=
  ∀ count ∈ action.stop, Settled (state.serve hashes roles action).1 count

/-- A faithful middleman, and no torn file. -/
def faithful (hashes : Hashes Digest) (roles : Side → Option Side) (state : Exchange Digest)
    (action : Action Digest) : Prop :=
  forwards state action ∧ clean hashes roles state action

section Runs

variable {hashes : Hashes Digest} {roles : Side → Option Side} {role : Option Side}
  {state next : Exchange Digest} {queue after : Queue Digest} {action : Action Digest}
  {call : Call Digest} {id : Digest} {side : Side}

@[simp] theorem other_other (side : Side) : side.other.other = side := by cases side <;> rfl

theorem other_ne (side : Side) : side.other ≠ side := by cases side <;> decide

/-- A call that runs to its end leaves no file torn. -/
theorem serve_settled (queue : Queue Digest) (role : Option Side) (cut : ℕ) (call : Call Digest) :
    Settled (queue.serve hashes role cut call).1 (queue.serve hashes role cut call).1.length := by
  unfold Settled
  rw [List.take_length]
  intro op last
  cases call with
  | next =>
    simp only [serve, map, next] at last
    repeat' split at last
    all_goals cases last
  | chunk id index =>
    simp only [serve, map, chunk] at last
    repeat' split at last
    all_goals cases last
  | commit id =>
    simp only [serve, map, commit] at last
    repeat' split at last
    all_goals first
        | (rw [List.getLast?_append] at last
           cases last
           rfl)
        | cases last
  | publish | start | receiveChunk | acknowledge =>
    simp only [serve, map, publish, start, receiveChunk,
      acknowledge] at last
    repeat' split at last
    all_goals first
        | (cases last; rfl)
        | cases last

/-- **What an action does**: it changes the queue of its side, and may answer. -/
theorem act_cases (hashes : Hashes Digest) (roles : Side → Option Side) (state : Exchange Digest)
    (action : Action Digest) :
    ∃ after, Change hashes (roles action.side) (state.queues action.side)
        (clean hashes roles state action) action.call after ∧
      (state.act hashes roles action).queues = Function.update state.queues action.side after ∧
      ((state.act hashes roles action).sent = state.sent ∨
        ∃ answer, (state.serve hashes roles action).2 = .ok answer ∧
          after = (state.queues action.side).replay (state.serve hashes roles action).1 ∧
          (state.act hashes roles action).sent = (action.side, answer) :: state.sent) := by
  obtain ⟨side, call, cut, stop⟩ := action
  have changes : ∀ count, Change hashes (roles side) (state.queues side)
      (Settled (state.serve hashes roles ⟨side, call, cut, stop⟩).1 count) call
      ((state.queues side).replay ((state.serve hashes roles ⟨side, call, cut, stop⟩).1.take count)) :=
    serve_change (state.queues side) (roles side) cut call
  have whole : Change hashes (roles side) (state.queues side) True call
      ((state.queues side).replay (state.serve hashes roles ⟨side, call, cut, stop⟩).1) := by
    have all := changes (state.serve hashes roles ⟨side, call, cut, stop⟩).1.length
    rw [List.take_length] at all
    exact all.mono fun _ => serve_settled _ _ _ _
  cases stop with
  | some count =>
    refine ⟨_, (changes count).mono fun clean => clean count rfl, rfl, Or.inl rfl⟩
  | none =>
    refine ⟨_, whole.mono fun _ => trivial, ?_⟩
    cases answered : (state.serve hashes roles ⟨side, call, cut, none⟩).2 with
    | error error =>
      have acts : state.act hashes roles ⟨side, call, cut, none⟩ = { state with
          queues := Function.update state.queues side ((state.queues side).replay
            (state.serve hashes roles ⟨side, call, cut, none⟩).1) } := by
        unfold Exchange.act
        generalize state.serve hashes roles ⟨side, call, cut, none⟩ = outcome at answered ⊢
        obtain ⟨ops, result⟩ := outcome
        obtain rfl : result = .error error := answered
        rfl
      rw [acts]
      exact ⟨rfl, Or.inl rfl⟩
    | ok answer =>
      have acts : state.act hashes roles ⟨side, call, cut, none⟩ = {
          queues := Function.update state.queues side ((state.queues side).replay
            (state.serve hashes roles ⟨side, call, cut, none⟩).1)
          sent := (side, answer) :: state.sent } := by
        unfold Exchange.act
        generalize state.serve hashes roles ⟨side, call, cut, none⟩ = outcome at answered ⊢
        obtain ⟨ops, result⟩ := outcome
        obtain rfl : result = .ok answer := answered
        rfl
      rw [acts]
      exact ⟨rfl, Or.inr ⟨answer, rfl, rfl, rfl⟩⟩

omit [DecidableEq Digest] in
theorem act_queue (after : Queue Digest)
    (acts : next.queues = Function.update state.queues action.side after) (side : Side) :
    side = action.side ∧ next.queues side = after ∨
      side ≠ action.side ∧ next.queues side = state.queues side := by
  rw [acts]
  by_cases here : side = action.side
  · subst here
    exact Or.inl ⟨rfl, Function.update_self ..⟩
  · exact Or.inr ⟨here, Function.update_of_ne here ..⟩

/-! ### Whatever the middleman sends -/

theorem sound_act (sound : ∀ side, (state.queues side).Sound hashes) (side : Side) :
    ((state.act hashes roles action).queues side).Sound hashes := by
  obtain ⟨after, change, acts, -⟩ := act_cases hashes roles state action
  obtain ⟨rfl, same⟩ | ⟨-, same⟩ := act_queue after acts side
  · rw [same]
    exact change.sound (sound _)
  · rw [same]
    exact sound side

theorem sound_run (reached : (exchangeSystem hashes roles).Reachable always state) (side : Side) :
    (state.queues side).Sound hashes := by
  refine reached.invariant (fun state => ∀ side, (state.queues side).Sound hashes) ?_ ?_ side
  · rintro state ⟨empty, -⟩ side
    rw [empty]
    exact sound_empty
  · intro state action next _ stepped sound
    cases stepped
    exact sound_act sound

theorem grows_act (hashes : Hashes Digest) (roles : Side → Option Side) (state : Exchange Digest)
    (action : Action Digest) (side : Side) :
    (state.queues side).Grows ((state.act hashes roles action).queues side) := by
  obtain ⟨after, change, acts, -⟩ := act_cases hashes roles state action
  obtain ⟨rfl, same⟩ | ⟨-, same⟩ := act_queue after acts side
  · rw [same]
    exact change.grows
  · rw [same]
    exact .refl _

theorem grows_run {later : Exchange Digest}
    (path : (exchangeSystem hashes roles).Leads always state later) (side : Side) :
    (state.queues side).Grows (later.queues side) := by
  refine path.preserves (fun later => ∀ side, (state.queues side).Grows (later.queues side)) ?_
    (fun side => .refl _) side
  intro before action next _ stepped grows side
  cases stepped
  exact (grows side).trans (grows_act hashes roles before action side)

/-- What holds of the queues whatever the middleman sends. -/
structure Bound (hashes : Hashes Digest) (state : Exchange Digest) : Prop where
  /-- A committed blob is the content that its manifest announces, and whatever was published under its
  id. -/
  content : ∀ side id entry, (state.queues side).incoming.get? id = some entry →
    entry.receipt.isSome = true → ∃ blob, entry.blob = some blob ∧ entry.manifest.id = id ∧
      Pins hashes entry.manifest blob ∧ ∀ publisher published,
        (state.queues publisher).outgoing.get? id = some published → published.blob = blob
  /-- A side commits at most one artifact for a kind and a key. -/
  unique : ∀ side first second one two, (state.queues side).incoming.get? first = some one →
    (state.queues side).incoming.get? second = some two → one.receipt.isSome = true →
    two.receipt.isSome = true → one.manifest.kind = two.manifest.kind →
    one.manifest.key = two.manifest.key → first = second ∧ one.blob = two.blob
  entries : ∀ side, (state.queues side).manifests.length ≤ maxArtifacts
  bytes : ∀ side, (state.queues side).load ≤ maxQueueBytes

variable {manifest : Manifest Digest}

theorem identity_of_valid (valid : validateManifest hashes manifest = .ok ()) :
    hashes.identity manifest.toBody = manifest.id := by
  unfold validateManifest at valid
  split_ifs at valid with bad other
  exact not_not.mp other

theorem pins_unique (collisionFree : hashes.CollisionFree) {first second : Manifest Digest}
    {one two : Bytes} (valid : validateManifest hashes first = .ok ())
    (valid' : validateManifest hashes second = .ok ()) (same : first.id = second.id)
    (pins : Pins hashes first one) (pins' : Pins hashes second two) : one = two := by
  have bodies : first.toBody = second.toBody := by
    apply collisionFree.identity
    rw [identity_of_valid valid, identity_of_valid valid', same]
  apply collisionFree.content
  rw [pins.2, pins'.2, bodies]

theorem bound_of_sound (collisionFree : hashes.CollisionFree)
    (sound : ∀ side, (state.queues side).Sound hashes) : Bound hashes state where
  content side id entry found receipt := by
    have fine := (sound side).incoming _ _ found
    obtain ⟨blob, stored⟩ := isSome_iff_exists.mp (fine.stored receipt)
    refine ⟨blob, stored, fine.named, fine.pins _ stored, fun publisher published there => ?_⟩
    have fine' := (sound publisher).outgoing _ _ there
    exact pins_unique collisionFree fine'.valid fine.valid (fine'.named.trans fine.named.symm)
      fine'.pins (fine.pins _ stored)
  unique side first second one two found found' receipt receipt' kind key := by
    have fine := (sound side).incoming _ _ found
    have fine' := (sound side).incoming _ _ found'
    have same := (sound side).agreement _ _ _ _ found found' (Manifest.isFor_iff.mpr ⟨kind, key⟩)
    have ids : first = second := by rw [← fine.named, ← fine'.named, same]
    subst ids
    rw [found] at found'
    obtain rfl := some.inj found'
    exact ⟨rfl, rfl⟩
  entries side := (sound side).entries
  bytes side := (sound side).load

/-! ### A middleman that only forwards -/

/-- The chunk files are the first slices of a content. -/
def Incoming.HasFirst (entry : Incoming Digest) (content : Bytes) (count : ℕ) : Prop :=
  ∀ index, entry.chunks.get? index = if index < count then some (slice chunkBytes content index) else none

variable {entry : Incoming Digest}

omit [DecidableEq Digest] in
theorem Incoming.HasFirst.push {content : Bytes} {count : ℕ} (first : entry.HasFirst content count) :
    Incoming.HasFirst { entry with
      chunks := entry.chunks.push count (slice chunkBytes content count) } content (count + 1) := by
  intro other
  rw [get?_push, first other]
  by_cases same : other = count
  · rw [if_pos same, if_pos (by omega), same]
  · rw [if_neg same]
    by_cases below : other < count
    · rw [if_pos below, if_pos (by omega)]
    · rw [if_neg below, if_neg (by omega)]

/-- The transfer of a published artifact, as the receiver has it. -/
structure Transfers (entry : Incoming Digest) (published : Outgoing Digest) : Prop where
  manifest : entry.manifest = published.manifest
  chunks : ∃ count ≤ entry.manifest.count, entry.HasFirst published.blob count
  readable : entry.receipt ≠ some .torn

/-- What the answers that are on their way say about the queues, and the queues about each other. -/
structure Carried (state : Exchange Digest) : Prop where
  announced : ∀ side manifest, (side, .next (some manifest)) ∈ state.sent →
    ∃ entry, (state.queues side).outgoing.get? manifest.id = some entry ∧ entry.manifest = manifest
  chunks : ∀ side value, (side, .chunk value) ∈ state.sent →
    ∃ entry, (state.queues side).outgoing.get? value.id = some entry ∧
      value.data = slice chunkBytes entry.blob value.index.toNat
  receipts : ∀ side receipt, (side, .committed receipt) ∈ state.sent →
    ∃ entry, (state.queues side).incoming.get? receipt.id = some entry ∧
      entry.receipt = some (.whole receipt)
  incoming : ∀ side id entry, (state.queues side).incoming.get? id = some entry →
    ∃ published, (state.queues side.other).outgoing.get? id = some published ∧ Transfers entry published
  delivered : ∀ side id entry, (state.queues side).outgoing.get? id = some entry →
    ∀ file, entry.delivery = some file → file = .whole (receiptOf entry.manifest) ∧
      ∃ received, (state.queues side.other).incoming.get? id = some received ∧
        received.receipt = some (.whole (receiptOf entry.manifest))

theorem next_answered {queue : Queue Digest} (sound : queue.Sound hashes)
    (answered : (queue.next hashes).2 = .ok (some manifest)) :
    ∃ entry, queue.outgoing.get? manifest.id = some entry ∧ entry.manifest = manifest := by
  unfold next at answered
  simp only at answered
  split at answered
  case h_1 => cases answered
  case h_2 entry found =>
    split at answered
    case h_1 => cases answered
    case h_2 =>
      cases answered
      obtain ⟨name, -, there⟩ := List.mem_filterMap.mp (List.mem_of_find?_eq_some found)
      refine ⟨entry, ?_, rfl⟩
      rw [(sound.outgoing _ _ there).named]
      exact there

theorem chunk_answered {queue : Queue Digest} {index : ℤ} {value : Chunk Digest}
    (answered : (queue.chunk hashes id index).2 = .ok value) :
    ∃ entry, queue.outgoing.get? value.id = some entry ∧
      value.data = slice chunkBytes entry.blob value.index.toNat := by
  unfold chunk at answered
  split at answered
  case h_1 => cases answered
  case h_2 entry found =>
    split at answered
    case h_1 => cases answered
    case h_2 =>
      split_ifs at answered
      · cases answered
        exact ⟨entry, found, rfl⟩
      · cases answered

variable {published : Outgoing Digest}

omit [DecidableEq Digest] in
/-- A published directory that grows is transferred as before. -/
theorem Transfers.grows {later : Outgoing Digest} (transfers : Transfers entry published)
    (grown : published.Grows later) :
    Transfers entry later := by
  refine ⟨transfers.manifest.trans grown.manifest.symm, ?_, transfers.readable⟩
  rw [grown.blob]
  exact transfers.chunks

omit [DecidableEq Digest] in
/-- The next chunk of a transfer is stored. -/
theorem Transfers.push {index : ℕ} (transfers : Transfers entry published)
    (order : index = 0 ∨ (entry.chunks.get? (index - 1)).isSome = true)
    (free : entry.chunks.get? index = none) (inside : index < entry.manifest.count) :
    Transfers { entry with
      chunks := entry.chunks.push index (slice chunkBytes published.blob index) } published := by
  obtain ⟨count, -, chunks⟩ := transfers.chunks
  -- The chunk before is there and this one is not.
  have here : index = count := by
    rw [chunks] at free
    have above : count ≤ index := by
      by_contra below
      rw [if_pos (not_le.mp below)] at free
      cases free
    obtain rfl | before := order
    · exact (Nat.le_zero.mp above).symm
    · rw [chunks] at before
      split_ifs at before with below
      · omega
      · cases before
  subst here
  exact ⟨transfers.manifest, ⟨index + 1, inside, chunks.push⟩, transfers.readable⟩

/-- What a faithful call makes of a received directory. -/
theorem incoming_change (carried : Carried state) (forwarded : forwards state action)
    (cleanly : clean hashes roles state action)
    (change : Change hashes role (state.queues action.side) (clean hashes roles state action)
      action.call after) (found : after.incoming.get? id = some entry) :
    ∃ published, (state.queues action.side.other).outgoing.get? id = some published ∧
      Transfers entry published := by
  have kept : ∀ {entry : Incoming Digest}, (state.queues action.side).incoming.get? id = some entry →
      ∃ published, (state.queues action.side.other).outgoing.get? id = some published ∧
        Transfers entry published := carried.incoming _ _ _
  have received : ∀ {other : Digest} {change : Incoming Digest → Incoming Digest},
      ((state.queues action.side).receiving other change).incoming.get? id = some entry →
      (∀ before published, (state.queues action.side).incoming.get? other = some before →
        (state.queues action.side.other).outgoing.get? other = some published →
        Transfers before published → Transfers (change before) published) →
      ∃ published, (state.queues action.side.other).outgoing.get? id = some published ∧
        Transfers entry published := by
    intro other change there transfers
    obtain ⟨before, earlier, same⟩ := get?_modify_some.mp there
    obtain ⟨published, known, transfer⟩ := kept earlier
    refine ⟨published, known, ?_⟩
    split_ifs at same with here
    · subst here
      rw [same]
      exact transfers before published earlier known transfer
    · rw [same]
      exact transfer
  obtain ⟨side, call, cut, stop⟩ := action
  cases change with
  | rest | published | delivered => exact kept found
  | @started manifest temporaries valid fits agrees room absent =>
    rcases push_cases found with ⟨here, rfl⟩ | ⟨-, found⟩
    · obtain ⟨published, known, same⟩ := carried.announced _ _ forwarded
      rw [here]
      exact ⟨published, known, same.symm, ⟨0, Nat.zero_le _, fun _ => rfl⟩, nofun⟩
    · exact kept found
  | @stored value before written there named inside order free part whole =>
    refine received found fun entry published there' known transfers => ?_
    obtain rfl := Option.mem_unique there there'
    obtain ⟨published', known', data⟩ := carried.chunks _ _ forwarded
    obtain rfl := Option.mem_unique known known'
    rw [whole cleanly, data]
    refine transfers.push (order.imp (fun first => ?_) fun before => before) free ?_
    · omega
    · refine (lt_sliceCount_iff (by decide)).mpr ?_
      have below : ((value.index.toNat * chunkBytes : ℕ) : ℤ) < before.manifest.bytes := by
        rw [Nat.cast_mul, Int.toNat_of_nonneg named]
        exact inside
      omega
  | rebuilt | replaced =>
    exact received found fun entry published _ _ transfers =>
      ⟨transfers.manifest, transfers.chunks, transfers.readable⟩
  | committed file there pending joined pins known whole =>
    refine received found fun entry published _ _ transfers =>
      ⟨transfers.manifest, transfers.chunks, fun torn => ?_⟩
    exact whole cleanly (some.inj torn)

/-- What a faithful call makes of a published directory: a delivery is recorded when the other side has a
receipt. -/
theorem outgoing_change (carried : Carried state) (forwarded : forwards state action)
    (cleanly : clean hashes roles state action)
    (change : Change hashes role (state.queues action.side) (clean hashes roles state action)
      action.call after) {entry : Outgoing Digest} (found : after.outgoing.get? id = some entry)
    {file : File (Receipt Digest)} (written : entry.delivery = some file) :
    file = .whole (receiptOf entry.manifest) ∧
      ∃ received, (state.queues action.side.other).incoming.get? id = some received ∧
        received.receipt = some (.whole (receiptOf entry.manifest)) := by
  obtain ⟨side, call, cut, stop⟩ := action
  cases change with
  | published =>
    rcases push_cases found with ⟨-, rfl⟩ | ⟨-, found⟩
    · cases written
    · exact carried.delivered _ _ _ found _ written
  | @delivered receipt before file there pending bound known whole =>
    obtain ⟨before', earlier, same⟩ := get?_modify_some.mp found
    split_ifs at same with here
    · subst here
      obtain rfl := Option.mem_unique there earlier
      rw [same] at written ⊢
      obtain rfl := some.inj written
      have filled := known.resolve_left (whole cleanly)
      rw [filled, bound]
      refine ⟨rfl, ?_⟩
      obtain ⟨received, known, stored⟩ := carried.receipts _ _ forwarded
      rw [bound] at known stored
      exact ⟨received, known, stored⟩
    · rw [same] at written ⊢
      exact carried.delivered _ _ _ earlier _ written
  | _ => exact carried.delivered _ _ _ found _ written

theorem Carried.sent_grows (carried : Carried state)
    (grows : ∀ side, (state.queues side).Grows (next.queues side)) :
    (∀ side manifest, (side, .next (some manifest)) ∈ state.sent → ∃ entry,
      (next.queues side).outgoing.get? manifest.id = some entry ∧ entry.manifest = manifest) ∧
    (∀ side value, (side, .chunk value) ∈ state.sent → ∃ entry,
      (next.queues side).outgoing.get? value.id = some entry ∧
        value.data = slice chunkBytes entry.blob value.index.toNat) ∧
    ∀ side receipt, (side, .committed receipt) ∈ state.sent → ∃ entry,
      (next.queues side).incoming.get? receipt.id = some entry ∧
        entry.receipt = some (.whole receipt) := by
  refine ⟨fun side manifest mem => ?_, fun side value mem => ?_, fun side receipt mem => ?_⟩
  · obtain ⟨entry, found, same⟩ := carried.announced side manifest mem
    obtain ⟨later, found', grown⟩ := (grows side).outgoing _ _ found
    exact ⟨later, found', grown.manifest.trans same⟩
  · obtain ⟨entry, found, same⟩ := carried.chunks side value mem
    obtain ⟨later, found', grown⟩ := (grows side).outgoing _ _ found
    exact ⟨later, found', by rw [same, grown.blob]⟩
  · obtain ⟨entry, found, same⟩ := carried.receipts side receipt mem
    obtain ⟨later, found', grown⟩ := (grows side).incoming _ _ found
    exact ⟨later, found', (grown.receipt _ same).1⟩

/-- What an answer says about the queue that it comes from. -/
theorem answer_carried (sound : (state.queues action.side).Sound hashes) {answer : Answer Digest}
    (answered : (state.serve hashes roles action).2 = .ok answer)
    (queue : after = (state.queues action.side).replay (state.serve hashes roles action).1) :
    (∀ manifest, answer = .next (some manifest) → ∃ entry,
      (state.queues action.side).outgoing.get? manifest.id = some entry ∧ entry.manifest = manifest) ∧
    (∀ value, answer = .chunk value → ∃ entry,
      (state.queues action.side).outgoing.get? value.id = some entry ∧
        value.data = slice chunkBytes entry.blob value.index.toNat) ∧
    ∀ receipt, answer = .committed receipt → ∃ entry,
      after.incoming.get? receipt.id = some entry ∧ entry.receipt = some (.whole receipt) := by
  obtain ⟨side, call, cut, stop⟩ := action
  -- An answer has the kind of its call.
  have of_call : ∀ {Given : Type} {result : Except String Given} {wrap : Given → Answer Digest},
      result.map wrap = .ok answer → ∃ given, result = .ok given ∧ wrap given = answer := by
    intro Given result wrap mapped
    cases result with
    | error error => cases mapped
    | ok given => exact ⟨given, rfl, Except.ok.inj mapped⟩
  refine ⟨?_, ?_, ?_⟩
  · rintro manifest rfl
    cases call with obtain ⟨given, found, same⟩ := of_call answered
    | next =>
      cases same
      exact next_answered sound found
    | _ =>
      cases same
  · rintro value rfl
    cases call with obtain ⟨given, found, same⟩ := of_call answered
    | chunk id index =>
      cases same
      exact chunk_answered found
    | _ =>
      cases same
  · rintro receipt rfl
    cases call with obtain ⟨given, found, same⟩ := of_call answered
    | commit id =>
      cases same
      obtain ⟨entry, there, -, stored, bound⟩ := commit_recorded found
      rw [queue, bound]
      exact ⟨entry, there, bound ▸ stored⟩
    | _ =>
      cases same

theorem carried_act (carried : Carried state) (sound : ∀ side, (state.queues side).Sound hashes)
    (faithfully : faithful hashes roles state action) : Carried (state.act hashes roles action) := by
  obtain ⟨forwarded, cleanly⟩ := faithfully
  have grows := grows_act hashes roles state action
  obtain ⟨announced, chunks, receipts⟩ := carried.sent_grows grows
  obtain ⟨after, change, acts, sent⟩ := act_cases hashes roles state action
  have place := act_queue after acts
  have here : (state.act hashes roles action).queues action.side = after :=
    (place action.side).elim And.right fun other => absurd rfl other.1
  have there : (state.act hashes roles action).queues action.side.other
      = state.queues action.side.other :=
    (place action.side.other).elim (fun same => absurd same.1 (other_ne _)) And.right
  -- What is carried by the answer of this step, or by an earlier one.
  have newer : ∀ {side answer}, (side, answer) ∈ (state.act hashes roles action).sent →
      (side, answer) ∈ state.sent ∨ side = action.side ∧
        (state.serve hashes roles action).2 = .ok answer ∧
        after = (state.queues action.side).replay (state.serve hashes roles action).1 := by
    intro side answer mem
    obtain same | ⟨given, answered, queue, same⟩ := sent
    · rw [same] at mem
      exact Or.inl mem
    · rw [same, List.mem_cons] at mem
      obtain new | old := mem
      · cases new
        exact Or.inr ⟨rfl, answered, queue⟩
      · exact Or.inl old
  refine ⟨?announced, ?chunks, ?receipts, ?incoming, ?delivered⟩
  case announced =>
    intro side manifest mem
    obtain old | ⟨rfl, answered, queue⟩ := newer mem
    · exact announced side manifest old
    · obtain ⟨entry, found, same⟩ := (answer_carried (sound _) answered queue).1 manifest rfl
      obtain ⟨later, found', grown⟩ := (grows _).outgoing _ _ found
      exact ⟨later, found', grown.manifest.trans same⟩
  case chunks =>
    intro side value mem
    obtain old | ⟨rfl, answered, queue⟩ := newer mem
    · exact chunks side value old
    · obtain ⟨entry, found, same⟩ := (answer_carried (sound _) answered queue).2.1 value rfl
      obtain ⟨later, found', grown⟩ := (grows _).outgoing _ _ found
      exact ⟨later, found', by rw [same, grown.blob]⟩
  case receipts =>
    intro side receipt mem
    obtain old | ⟨rfl, answered, queue⟩ := newer mem
    · exact receipts side receipt old
    · rw [here]
      exact (answer_carried (sound _) answered queue).2.2 receipt rfl
  case incoming =>
    intro side id entry found
    obtain ⟨rfl, -⟩ | ⟨other, same⟩ := place side
    · rw [here] at found
      rw [there]
      exact incoming_change carried forwarded cleanly change found
    · rw [same] at found
      obtain ⟨published, known, transfers⟩ := carried.incoming _ _ _ found
      obtain ⟨later, known', grown⟩ := (grows side.other).outgoing _ _ known
      exact ⟨later, known', transfers.grows grown⟩
  case delivered =>
    intro side id entry found file written
    have known : file = .whole (receiptOf entry.manifest) ∧ ∃ received,
        (state.queues side.other).incoming.get? id = some received ∧
          received.receipt = some (.whole (receiptOf entry.manifest)) := by
      obtain ⟨rfl, -⟩ | ⟨other, same⟩ := place side
      · rw [here] at found
        exact outgoing_change carried forwarded cleanly change found written
      · rw [same] at found
        exact carried.delivered _ _ _ found _ written
    obtain ⟨filled, received, stored, receipt⟩ := known
    obtain ⟨later, stored', grown⟩ := (grows side.other).incoming _ _ stored
    exact ⟨filled, later, stored', (grown.receipt _ receipt).1⟩

theorem carried_run (reached : (exchangeSystem hashes roles).Reachable (faithful hashes roles) state) :
    Carried state := by
  refine (reached.invariant (fun state => Carried state ∧ ∀ side, (state.queues side).Sound hashes)
    ?_ ?_).1
  · rintro state ⟨empty, none⟩
    refine ⟨⟨?_, ?_, ?_, ?_, ?_⟩, fun side => ?_⟩
    · intro side manifest mem
      rw [none] at mem
      cases mem
    · intro side value mem
      rw [none] at mem
      cases mem
    · intro side receipt mem
      rw [none] at mem
      cases mem
    · intro side id entry found
      rw [empty] at found
      cases found
    · intro side id entry found
      rw [empty] at found
      cases found
    · rw [empty]
      exact sound_empty
  · rintro state action next faithfully stepped ⟨carried, sound⟩
    cases stepped
    exact ⟨carried_act carried sound faithfully, sound_act sound⟩

/-- What holds of the queues besides if the middleman only forwards. -/
structure Faithful (state : Exchange Digest) : Prop where
  /-- A committed blob was published by the other side, under the same manifest. -/
  content : ∀ side id entry, (state.queues side).incoming.get? id = some entry →
    entry.receipt.isSome = true → ∃ published,
      (state.queues side.other).outgoing.get? id = some published ∧
        entry.manifest = published.manifest ∧ entry.blob = some published.blob
  /-- The chunk files are the first slices of the published content. -/
  chunks : ∀ side id entry, (state.queues side).incoming.get? id = some entry → ∃ published,
    (state.queues side.other).outgoing.get? id = some published ∧
      ∃ count ≤ entry.manifest.count, entry.HasFirst published.blob count
  /-- A delivery is recorded behind the commit of that content. -/
  delivered : ∀ side id entry, (state.queues side).outgoing.get? id = some entry →
    entry.delivery.isSome = true → ∃ received,
      (state.queues side.other).incoming.get? id = some received ∧
        received.receipt = some (.whole (receiptOf entry.manifest)) ∧
        received.blob = some entry.blob

theorem faithful_of_carried (collisionFree : hashes.CollisionFree)
    (sound : ∀ side, (state.queues side).Sound hashes) (carried : Carried state) : Faithful state := by
  have content : ∀ side id entry, (state.queues side).incoming.get? id = some entry →
      entry.receipt.isSome = true → ∃ published,
        (state.queues side.other).outgoing.get? id = some published ∧
          entry.manifest = published.manifest ∧ entry.blob = some published.blob := by
    intro side id entry found receipt
    obtain ⟨published, known, transfers⟩ := carried.incoming _ _ _ found
    obtain ⟨blob, stored, -, -, same⟩ :=
      (bound_of_sound collisionFree sound).content _ _ _ found receipt
    exact ⟨published, known, transfers.manifest, by rw [stored, same _ _ known]⟩
  refine ⟨content, fun side id entry found => ?_, fun side id entry found written => ?_⟩
  · obtain ⟨published, known, transfers⟩ := carried.incoming _ _ _ found
    exact ⟨published, known, transfers.chunks⟩
  · obtain ⟨file, there⟩ := isSome_iff_exists.mp written
    obtain ⟨-, received, known, receipt⟩ := carried.delivered _ _ _ found _ there
    obtain ⟨published, known', -, blob⟩ := content _ _ _ known (by rw [receipt]; rfl)
    rw [other_other, found] at known'
    obtain rfl := some.inj known'
    exact ⟨received, known, receipt, blob⟩

/-! ### The exchange -/

/-- **The exchange of artifacts.** Whatever the middleman sends, a committed blob is what its manifest
announces, and what was published under its id, and the queues keep their bounds; if it only forwards,
the content was published by the other side, arrives in order and is recorded as delivered after the
commit. What is committed stays as it is; a chunk, a commit or an acknowledgement that was answered is
answered again, and changes nothing. -/
theorem artifact_exchange (hashes : Hashes Digest) (collisionFree : hashes.CollisionFree)
    (roles : Side → Option Side) :
    (∀ state, (exchangeSystem hashes roles).Reachable always state → Bound hashes state) ∧
    (∀ state, (exchangeSystem hashes roles).Reachable (faithful hashes roles) state → Faithful state) ∧
    (∀ (state later : Exchange Digest) side id entry,
      (exchangeSystem hashes roles).Leads always state later →
      (state.queues side).incoming.get? id = some entry → entry.receipt.isSome = true →
        ∃ kept, (later.queues side).incoming.get? id = some kept ∧ kept.receipt = entry.receipt ∧
          kept.manifest = entry.manifest ∧ kept.blob = entry.blob) ∧
    ∀ (state : Exchange Digest) side call cut answer, Call.repeats call = true →
      (state.serve hashes roles ⟨side, call, cut, none⟩).2 = .ok answer →
      ∀ later, (exchangeSystem hashes roles).Leads always
          (state.act hashes roles ⟨side, call, cut, none⟩) later →
        ∀ cut, later.serve hashes roles ⟨side, call, cut, none⟩ = ([], .ok answer) := by
  refine ⟨fun state reached => ?_, fun state reached => ?_, ?_, ?_⟩
  · exact bound_of_sound collisionFree fun side => sound_run reached side
  · exact faithful_of_carried collisionFree
      (sound_run (reached.mono fun _ _ _ => trivial)) (carried_run reached)
  · intro state later side id entry path found receipt
    obtain ⟨file, written⟩ := isSome_iff_exists.mp receipt
    obtain ⟨kept, there, grown⟩ := (grows_run path side).incoming _ _ found
    obtain ⟨same, blob⟩ := grown.receipt file written
    exact ⟨kept, there, same.trans written.symm, grown.manifest, blob⟩
  · intro state side call cut answer repeats answered later path again
    have recorded := serve_records repeats answered
    have here : (state.act hashes roles ⟨side, call, cut, none⟩).queues side
        = (state.queues side).replay (state.serve hashes roles ⟨side, call, cut, none⟩).1 := by
      unfold Exchange.act
      generalize state.serve hashes roles ⟨side, call, cut, none⟩ = outcome at answered ⊢
      obtain ⟨ops, result⟩ := outcome
      obtain rfl : result = .ok answer := answered
      exact Function.update_self ..
    refine serve_recorded (recorded.grows ?_)
    have grows := grows_run path side
    rw [here] at grows
    exact grows

end Runs

/-! ### A middleman that makes an artifact up -/

/-- Digests that spell out what they are of. -/
inductive Spelled
  | content (bytes : Bytes)
  | body (schemaVersion : ℤ) (kind : Kind) (key : String) (bytes : ℤ) (sha256 : Spelled)
      (chunkBytes : ℤ)
deriving DecidableEq

def spelledHashes : Hashes Spelled where
  content := .content
  identity body := .body body.schemaVersion body.kind body.key body.bytes body.sha256 body.chunkBytes
  before _ _ := true

theorem spelled_collisionFree : spelledHashes.CollisionFree where
  content one two same := Spelled.content.inj same
  identity one two same := by
    obtain ⟨version, kind, key, bytes, sha256, chunk⟩ := Spelled.body.inj same
    cases one
    simp_all

def sampleManifest : Manifest Spelled := manifestOf spelledHashes .sealedGroup "k" [7]

def sampleChunk : Chunk Spelled := ⟨sampleManifest.id, 0, [7], .content [7]⟩

def nothingYet : Exchange Spelled := ⟨fun _ => empty, []⟩

def completeCall (side : Side) (call : Call Spelled) : Action Spelled := ⟨side, call, 0, none⟩

/-- A manifest, a chunk and a commit of a content that no side has published. -/
def madeUp : List (Action Spelled) :=
  [completeCall .gpu (.start sampleManifest), completeCall .gpu (.receiveChunk sampleChunk),
    completeCall .gpu (.commit sampleManifest.id)]

def sampleCommitted (queue : Queue Spelled) : Bool :=
  (queue.incoming.get? sampleManifest.id).any fun entry =>
    entry.receipt.isSome && decide (entry.blob = some [7])

/-- A content is committed that was never published. -/
theorem made_up_committed : spelledHashes.CollisionFree ∧ ∃ state,
    (exchangeSystem spelledHashes some).Reachable always state ∧
      sampleCommitted (state.queues .gpu) = true ∧
      ∀ side, (state.queues side).outgoing.get? sampleManifest.id = none := by
  have executed : ((exchangeSystem spelledHashes some).run always nothingYet madeUp).any
      (fun state => sampleCommitted (state.queues .gpu) &&
        ((state.queues .cpu).outgoing.get? sampleManifest.id).isNone &&
        ((state.queues .gpu).outgoing.get? sampleManifest.id).isNone) = true := by
    decide +kernel
  obtain ⟨state, reached, holds⟩ := (any_eq_true _ _).mp executed
  simp only [Bool.and_eq_true, isNone_iff_eq_none] at holds
  refine ⟨spelled_collisionFree, state, reachable_of_run ⟨rfl, rfl⟩ reached, holds.1.1, ?_⟩
  intro side
  cases side with
  | cpu => exact holds.1.2
  | gpu => exact holds.2

instance decidableForwards (state : Exchange Spelled) :
    (action : Action Spelled) → Decidable (forwards state action)
  | ⟨side, .start manifest, _, _⟩ =>
    inferInstanceAs (Decidable ((side.other, Answer.next (some manifest)) ∈ state.sent))
  | ⟨side, .receiveChunk value, _, _⟩ =>
    inferInstanceAs (Decidable ((side.other, Answer.chunk value) ∈ state.sent))
  | ⟨side, .acknowledge receipt, _, _⟩ =>
    inferInstanceAs (Decidable ((side.other, Answer.committed receipt) ∈ state.sent))
  | ⟨_, .publish _ _ _ _, _, _⟩ | ⟨_, .next, _, _⟩ | ⟨_, .chunk _ _, _, _⟩ | ⟨_, .commit _, _, _⟩ =>
    isTrue trivial

instance decidableFaithful (state : Exchange Spelled) (action : Action Spelled) :
    Decidable (faithful spelledHashes some state action) :=
  inferInstanceAs (Decidable (_ ∧ ∀ count ∈ action.stop, Settled _ count))

def wholeTransfer : List (Action Spelled) :=
  [completeCall .cpu (.publish .sealedGroup "k" [7] [7]), completeCall .cpu .next,
    completeCall .gpu (.start sampleManifest), completeCall .cpu (.chunk sampleManifest.id 0),
    completeCall .gpu (.receiveChunk sampleChunk), completeCall .gpu (.commit sampleManifest.id),
    completeCall .cpu (.acknowledge (receiptOf sampleManifest))]

/-- A transfer that a faithful middleman carries to its end. -/
theorem whole_transfer_exchange : ∃ state, sampleCommitted (state.queues .gpu) = true ∧
    Bound spelledHashes state ∧ Faithful state := by
  have executed : ((exchangeSystem spelledHashes some).run (faithful spelledHashes some) nothingYet
      wholeTransfer).any (fun state => sampleCommitted (state.queues .gpu)) = true := by
    decide +kernel
  obtain ⟨state, reached, committed⟩ := (any_eq_true _ _).mp executed
  obtain ⟨bound, faithfully, -⟩ := artifact_exchange spelledHashes spelled_collisionFree some
  have initial : (exchangeSystem spelledHashes some).initial nothingYet := ⟨rfl, rfl⟩
  have run := reachable_of_run initial reached
  exact ⟨state, committed, bound state (run.mono fun _ _ _ => trivial), faithfully state run⟩

end TinyDSV41.Artifacts
