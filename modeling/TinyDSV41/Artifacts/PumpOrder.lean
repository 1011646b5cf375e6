/-
**The delivery loop delivers in the order of the ids.**

A round takes the first published artifact that has no delivery. If the other side admits it and nothing of
the round is lost, it is delivered; if the other side rejects it, the round changes nothing. What is rejected
once is rejected for ever, so a rejected artifact lets pass what is before it, and nothing behind it.

* `next_first` — which artifact a round takes.
* `Change.admits_before` — what is admitted later was admitted before.
* `pumpRound_rejected` — a round that takes a rejected artifact.
* `pumpRound_delivers` — a round of which nothing is lost, and that takes an admitted one.
* `pump_order` — which artifacts the loop delivers.
-/

import TinyDSV41.Artifacts.Pump
import Mathlib.Algebra.Order.BigOperators.Group.List
import Mathlib.Data.List.Lex

namespace TinyDSV41.Artifacts

open List Lib OrderedTable Queue List.Sublist
open Option (bind_eq_some_iff some)
open Prod (fst snd)
open Script (ensures_bind ensures_done ensures_each ensures_ite)

variable {Digest : Type} [DecidableEq Digest]

/-! ### The first artifact -/

/-- The order of the texts of the digests. -/
structure Hashes.Ordered (hashes : Hashes Digest) : Prop where
  total : ∀ first second, hashes.before first second = true ∨ hashes.before second first = true
  trans : ∀ first second third, hashes.before first second = true → hashes.before second third = true →
    hashes.before first third = true
  antisymm : ∀ first second, hashes.before first second = true → hashes.before second first = true → first = second

def Queue.Undelivered (queue : Queue Digest) (id : Digest) : Prop :=
  ∃ entry, queue.outgoing.get? id = some entry ∧ entry.delivery = none

section Order

variable {hashes : Hashes Digest} {queue after : Queue Digest} {role : Option Side} {call : Call Digest} {id : Digest}
  {manifest : Manifest Digest}

omit [DecidableEq Digest] in
/-- The first of a sorted list for which something holds. -/
theorem find_first {Value : Type} {before : Value → Value → Prop} {values : List Value} {test : Value → Bool}
    {value : Value} (sorted : values.Pairwise before) (found : values.find? test = some value) :
    ∀ other ∈ values, test other = true → other = value ∨ before value other := by
  induction values with
  | nil => cases found
  | cons first rest known =>
    obtain ⟨here, later⟩ := pairwise_cons.mp sorted
    intro other mem holds
    cases passes : test first with rw [find?_cons, passes] at found
    | true =>
      cases found
      exact (mem_cons.mp mem).imp id (here other)
    | false =>
      rcases mem_cons.mp mem with rfl | mem
      · rw [holds] at passes
        cases passes
      · exact known later found other mem holds

/-- `next` takes the first artifact without a delivery. -/
theorem next_first (ordered : hashes.Ordered) (sound : queue.Sound hashes) (waits : queue.Undelivered id) :
    ∃ first entry, queue.outgoing.get? first = some entry ∧ entry.delivery = none ∧ first = entry.manifest.id ∧
      queue.next hashes = ([], .ok (some entry.manifest)) ∧
      ∀ other, queue.Undelivered other → hashes.before first other = true := by
  have sorted : ((queue.outgoing.items.map fst).mergeSort hashes.before).Pairwise
      fun first second => hashes.before first second = true :=
    pairwise_mergeSort ordered.trans (fun first second => by
      rcases ordered.total first second with low | high
      · rw [low, Bool.true_or]
      · rw [high, Bool.or_true]) _
  have listed : ∀ {other entry}, queue.outgoing.get? other = some entry →
      other ∈ (queue.outgoing.items.map fst).mergeSort hashes.before := by
    intro other entry found
    refine (mergeSort_perm _ _).mem_iff.mpr (mem_map.mpr ⟨(other, entry), ?_, rfl⟩)
    exact mem_items.mpr found
  have open_ : ∀ {other}, queue.Undelivered other →
      ((queue.outgoing.get? other).any fun entry => entry.delivery.isNone) = true := by
    rintro other ⟨entry, found, none_⟩
    rw [found, Option.any_some, none_]
    rfl
  cases taken : ((queue.outgoing.items.map fst).mergeSort hashes.before).find?
      fun name => (queue.outgoing.get? name).any fun entry => entry.delivery.isNone with
  | none =>
    have passes := open_ waits
    obtain ⟨entry, found, -⟩ := waits
    exact absurd passes (find?_eq_none.mp taken id (listed found))
  | some first =>
    have passes : ((queue.outgoing.get? first).any fun entry => entry.delivery.isNone) = true :=
      (find?_eq_some_iff_append.mp taken).1
    obtain ⟨entry, found, fresh⟩ := (Option.any_eq_true _ _).mp passes
    have fine := sound.outgoing first entry found
    refine ⟨first, entry, found, Option.isNone_iff_eq_none.mp fresh, fine.named.symm, ?_, fun other waits => ?_⟩
    · unfold Queue.next
      simp only [find?_filterMap, taken, Option.bind_some, found, fine.valid]
      rfl
    · have passes := open_ waits
      obtain ⟨_, found, -⟩ := waits
      rcases find_first sorted taken other (listed found) passes with rfl | before
      · exact (ordered.total _ _).elim (fun same => same) fun same => same
      · exact before

/-! ### What is rejected -/

theorem Change.manifests (change : Change hashes role queue True call after) :
    queue.manifests.Sublist after.manifests := by
  have received : ∀ {other : Digest} {change : Incoming Digest → Incoming Digest},
      (∀ entry, (change entry).manifest = entry.manifest) →
      queue.manifests.Sublist (queue.receiving other change).manifests := by
    intro other change same
    unfold Queue.manifests receiving
    rw [map_values_modify same]
  cases change with
  | rest => exact refl _
  | published temporaries valid fresh room pins absent =>
    unfold Queue.manifests
    rw [values_push absent, map_append]
    exact (refl _).append (sublist_append_left _ _)
  | started temporaries valid fits agrees room absent =>
    unfold Queue.manifests
    rw [values_push absent, map_append]
    exact (sublist_append_left _ _).append (refl _)
  | stored | rebuilt | replaced | committed => exact received fun _ => rfl
  | @delivered receipt entry file =>
    have same : (queue.outgoing.modify receipt.id fun entry => { entry with delivery := some file }).values.map
        Outgoing.manifest = queue.outgoing.values.map Outgoing.manifest := map_values_modify fun _ => rfl
    unfold Queue.manifests
    rw [same]

theorem manifest_bounds (valid : validateManifest hashes manifest = .ok ()) :
    manifest.chunkBytes = chunkBytes ∧ 0 < manifest.bytes ∧ manifest.bytes ≤ maxBytes := by
  unfold validateManifest at valid
  split_ifs at valid with malformed
  simp only [not_or, not_not] at malformed
  exact ⟨malformed.2.2.2, malformed.2.2.1⟩

theorem bounded_before {extra : ℤ} (fewer : queue.manifests.Sublist after.manifests)
    (room : after.bounded hashes extra = .ok ()) : queue.bounded hashes extra = .ok () := by
  obtain ⟨valid, entries, load⟩ := bounded_ok_iff.mp room
  refine bounded_ok_iff.mpr ⟨fun value mem => valid value (fewer.subset mem),
    lt_of_le_of_lt fewer.length_le entries, le_trans ?_ load⟩
  refine Int.add_le_add_right ((fewer.map _).sum_le_sum fun bytes mem => ?_) extra
  obtain ⟨value, there, rfl⟩ := mem_map.mp mem
  exact (manifest_bounds (valid value there)).2.1.le

/-- **What is admitted after a call was admitted before it.** -/
theorem Change.admits_before (change : Change hashes role queue True call after)
    (admits : Admits hashes role after manifest) : Admits hashes role queue manifest := by
  have grows := change.grows
  have old : ∀ {id entry}, queue.incoming.get? id = some entry →
      ∃ later ∈ after.incoming.values, after.incoming.get? id = some later ∧ later.manifest = entry.manifest := by
    intro id entry found
    obtain ⟨later, there, grown⟩ := grows.incoming id entry found
    exact ⟨later, mem_values.mpr ⟨id, there⟩, there, grown.manifest⟩
  have agrees : ∀ entry ∈ queue.incoming.values,
      entry.manifest.isFor manifest.kind manifest.key = true → entry.manifest = manifest := by
    intro entry mem here
    obtain ⟨id, found⟩ := mem_values.mp mem
    obtain ⟨later, member', -, same⟩ := old found
    rw [← same] at here ⊢
    exact admits.agrees later member' here
  have same : ∀ entry, queue.incoming.get? manifest.id = some entry → entry.manifest = manifest := by
    intro entry found
    obtain ⟨later, -, there, same⟩ := old found
    exact same.symm.trans (admits.same later there)
  have absent : (queue.incoming.get? manifest.id = none → after.incoming.get? manifest.id = none) →
      Admits hashes role queue manifest := fun stays =>
    ⟨admits.valid, admits.fits, agrees, fun free => bounded_before change.manifests (admits.room (stays free)), same⟩
  have received : ∀ {other : Digest} {change : Incoming Digest → Incoming Digest},
      queue.incoming.get? manifest.id = none →
      (queue.receiving other change).incoming.get? manifest.id = none := by
    intro other change free
    unfold receiving
    rw [get?_modify, free]
    rfl
  cases change with
  | rest | published | delivered => exact absent fun free => free
  | stored | rebuilt | replaced | committed => exact absent received
  | @started started temporaries valid fits agrees' room free =>
    by_cases own : manifest.id = started.id
    · -- The artifact itself was started.
      have there : (queue.incoming.push started.id ⟨started, ∅, none, none, none⟩).get? manifest.id
          = some ⟨started, ∅, none, none, none⟩ := by
        rw [own]
        exact get?_push_self
      obtain rfl : started = manifest := admits.same _ there
      exact ⟨valid, fits, agrees', fun _ => room, same⟩
    · exact absent (get?_push_ne own).trans

theorem start_rejects (rejected : ¬ Admits hashes role queue manifest) :
    ∃ error, queue.start hashes role manifest = ([], .error error) := by
  rcases outcome : queue.start hashes role manifest with ⟨ops, error | progress⟩
  · refine ⟨error, ?_⟩
    unfold start at outcome
    repeat' split at outcome
    all_goals
      cases outcome
      try rfl
  · exact absurd (admits_of_answered (congrArg snd outcome)) rejected

end Order

/-! ### Rounds -/

section Rounds

variable {hashes : Hashes Digest} {roles : Side → Option Side} {source : Side} {state : Exchange Digest}
  {manifest : Manifest Digest} {id : Digest}

theorem act_idle {side : Side} {call : Call Digest}
    (idle : ((state.queues side).serve hashes (roles side) 0 call).1 = []) :
    (state.act hashes roles ⟨side, call, 0, none⟩).queues = state.queues := by
  rw [act_complete, idle]
  exact Function.update_eq_self ..

/-- **A round that takes a rejected artifact changes nothing**, whatever is lost. -/
theorem pumpRound_rejected (next : (state.queues source).next hashes = ([], .ok (some manifest)))
    (announced : Announced source manifest state)
    (rejected : ¬ Admits hashes (roles source.other) (state.queues source.other) manifest) (fates : Fates) :
    (pumpRound hashes roles source fates state).queues = state.queues := by
  obtain ⟨error, starts⟩ := start_rejects rejected
  have asks : ∀ other, other.queues = state.queues →
      (Exchange.act hashes roles other ⟨source, .next, 0, none⟩).queues = state.queues := by
    intro other same
    refine (act_idle ?_).trans same
    rw [same]
    exact congrArg fst next
  have tries : ∀ other, other.queues = state.queues →
      (Exchange.act hashes roles other ⟨source.other, .start manifest, 0, none⟩).queues = state.queues := by
    intro other same
    refine (act_idle ?_).trans same
    rw [same]
    exact congrArg fst starts
  have ensured : Script.Ensures (fun other : Exchange Digest => other.queues = state.queues)
      (artifactPump hashes roles source fates) (fun _ other => other.queues = state.queues)
      (fun other => other.queues = state.queues) := by
    refine ensures_bind (fun found other => other.queues = state.queues ∧ found = some manifest) ?_
      fun found => ?_
    · refine api_ensures _ _ (fun _ _ => ⟨rfl, trivial⟩) asks fun other answer value same served found => ?_
      have answered : ((other.queues source).next hashes).2 = .ok value :=
        answered_map served found fun _ => rfl
      rw [same, next] at answered
      exact (Except.ok.inj answered).symm
    · refine ensures_each ?_
      rintro other ⟨same, rfl⟩
      refine ensures_ite (fun _ => Script.ensures_raise fun _ here => here ▸ same) fun _ => ?_
      refine ensures_bind (fun _ _ => False) ?_ fun _ _ wrong => wrong.elim
      refine (artifactRetry_ensures (fun _ _ => False) _ (fun other same => ⟨rfl, fun _ => ?_⟩) tries
        (fun other answer value same served found => ?_) attempts "").weaken (fun _ here => here ▸ same)
        (fun _ _ given => given.2) fun _ => id
      · obtain ⟨entry, there, named⟩ := announced
        rw [same]
        exact ⟨entry, there, named⟩
      · have answered : ((other.queues source.other).start hashes (roles source.other) manifest).2 = .ok value :=
          answered_map served found fun _ => rfl
        rw [same, starts] at answered
        cases answered
  obtain ⟨-, ends⟩ := ensured state rfl
  cases ended : ((artifactPump hashes roles source fates).run state).2 with
  | error | ok =>
    rw [ended] at ends
    exact ends

section

variable (queue : Queue Digest) (role : Option Side) (cut : ℕ)
include queue role cut

theorem serve_start (manifest : Manifest Digest) :
    (queue.serve hashes role cut (.start manifest)).1 = (queue.start hashes role manifest).1 := rfl

end

structure At (source : Side) (state : Exchange Digest) (sender receiver : Queue Digest) : Prop where
  sender : state.queues source = sender
  receiver : state.queues source.other = receiver

variable {sender receiver : Queue Digest} {call : Call Digest} {Value : Type} {read : Answer Digest → Option Value}
  {answer : Answer Digest} {value : Value}

theorem At.send (hashes : Hashes Digest) (roles : Side → Option Side) (at_ : At source state sender receiver)
    (call : Call Digest) :
    At source (state.act hashes roles ⟨source, call, 0, none⟩)
      (sender.replay (sender.serve hashes (roles source) 0 call).1) receiver := by
  constructor
  · rw [act_complete, Function.update_self, at_.sender]
  · rw [act_complete, Function.update_of_ne (other_ne source), at_.receiver]

theorem At.receive (hashes : Hashes Digest) (roles : Side → Option Side) (at_ : At source state sender receiver)
    (call : Call Digest) :
    At source (state.act hashes roles ⟨source.other, call, 0, none⟩) sender
      (receiver.replay (receiver.serve hashes (roles source.other) 0 call).1) := by
  constructor
  · rw [act_complete, Function.update_of_ne (other_ne source).symm, at_.sender]
  · rw [act_complete, Function.update_self, at_.receiver]

theorem request_answers {side : Side} (legal : Delivers source state ⟨side, call, 0, none⟩)
    (served : (state.serve hashes roles ⟨side, call, 0, none⟩).2 = .ok answer) (known : read answer = some value) :
    Script.Ensures (· = state) (request hashes roles source .answered side call read)
      (fun outcome after => outcome = .ok value ∧ after = state.act hashes roles ⟨side, call, 0, none⟩)
      (fun _ => False) := by
  refine Script.ensures_read ?_
  rintro start rfl
  refine ensures_bind (fun _ after => after = start.act hashes roles ⟨side, call, 0, none⟩)
    (Script.ensures_perform ?_ ?_) fun _ => ?_
  · rintro disk rfl
    exact legal
  · rintro disk rfl
    rfl
  · rw [served]
    refine ensures_done fun after same => ⟨?_, same⟩
    rw [known]
    rfl

theorem api_answers (at_ : At source state sender receiver) (legal : Delivers source state ⟨source, call, 0, none⟩)
    (served : (sender.serve hashes (roles source) 0 call).2 = .ok answer) (known : read answer = some value) :
    Script.Ensures (· = state) (api hashes roles source .answered call read)
      (fun found after => found = value ∧ after = state.act hashes roles ⟨source, call, 0, none⟩) (fun _ => False) := by
  rw [← at_.sender] at served
  refine ensures_bind _ (request_answers legal served known) fun outcome => ensures_each ?_
  rintro after ⟨rfl, same⟩
  refine ensures_done ?_
  rintro disk rfl
  exact ⟨rfl, same⟩

theorem artifactRetry_answers (at_ : At source state sender receiver)
    (legal : Delivers source state ⟨source.other, call, 0, none⟩)
    (served : (receiver.serve hashes (roles source.other) 0 call).2 = .ok answer) (known : read answer = some value) :
    Script.Ensures (· = state) (artifactRetry hashes roles source (fun _ => .answered) call read attempts "")
      (fun found after => found = value ∧ after = state.act hashes roles ⟨source.other, call, 0, none⟩)
      (fun _ => False) := by
  rw [← at_.receiver] at served
  refine ensures_bind _ (request_answers legal served known) fun outcome => ensures_each ?_
  rintro after ⟨rfl, same⟩
  refine ensures_done ?_
  rintro disk rfl
  exact ⟨rfl, same⟩

theorem complete_replay {Answer : Type} {queue after : Queue Digest} {outcome : Outcome Digest Answer} {answer : Answer}
    (completed : queue.complete outcome = some (after, answer)) :
    outcome.2 = .ok answer ∧ after = queue.replay outcome.1 := by
  obtain ⟨answered, same⟩ := complete_some completed
  rw [take_length] at same
  exact ⟨answered, same⟩

variable {published : Outgoing Digest}

/-- The chunks are sent, one after the other. -/
theorem sendChunks_answers (found : sender.outgoing.get? id = some published) (fine : published.Sound hashes id)
    (indices : List ℕ) (inside : ∀ index ∈ indices, index < published.manifest.count) {received : Queue Digest}
    (sends : receiver.receiveAll hashes published.manifest.id published.blob 0 indices = some received) :
    Script.Ensures (fun state => At source state sender receiver)
      (sendChunks hashes roles source allAnswered published.manifest indices)
      (fun _ state => At source state sender received) (fun _ => False) := by
  induction indices generalizing receiver with
  | nil =>
    cases sends
    exact ensures_done fun _ at_ => at_
  | cons index rest known =>
    obtain ⟨below, others⟩ := forall_mem_cons.mp inside
    obtain ⟨⟨stored, answer⟩, completed, later⟩ := bind_eq_some_iff.mp sends
    obtain ⟨answered, rfl⟩ := complete_replay completed
    have named : published.manifest.id = id := fine.named
    -- The chunk that is read is the chunk of the content.
    have reads : sender.chunk hashes published.manifest.id index
        = ([], .ok (chunkOf hashes published.manifest.id published.blob index)) := by
      have there : sender.outgoing.get? published.manifest.id = some published := by
        rw [named]
        exact found
      have bound : (0 : ℤ) ≤ index ∧ (index : ℤ) < published.manifest.count :=
        ⟨Int.natCast_nonneg _, Int.ofNat_lt.mpr below⟩
      unfold chunk
      simp only [there, fine.valid]
      rw [if_neg (not_not.mpr bound)]
      rfl
    obtain ⟨entry, -, -, stored_⟩ := takes_of_answered answered
    refine ensures_each fun state at_ => ?_
    have asked : (sender.serve hashes (roles source) 0 (.chunk published.manifest.id index)).2
        = .ok (.chunk (chunkOf hashes published.manifest.id published.blob index)) :=
      congrArg (fun outcome => (outcome.map Answer.chunk).2) reads
    refine ensures_bind _ (api_answers at_ ⟨rfl, trivial⟩ asked rfl) fun chunk => ensures_each ?_
    rintro between ⟨rfl, rfl⟩
    refine ensures_ite (fun differs => (differs.elim (· rfl) (· rfl)).elim) fun _ => ?_
    -- Reading it changes nothing.
    have at' : At source (state.act hashes roles ⟨source, .chunk published.manifest.id index, 0, none⟩) sender receiver := by
      have moved := at_.send hashes roles (.chunk published.manifest.id index)
      have idle : (sender.serve hashes (roles source) 0 (.chunk published.manifest.id index)).1 = [] :=
        congrArg fst reads
      rw [idle] at moved
      exact moved
    have sent : (receiver.serve hashes (roles source.other) 0
        (.receiveChunk (chunkOf hashes published.manifest.id published.blob index))).2 = .ok (.stored answer) := by
      show Except.map Answer.stored _ = _
      rw [answered]
      rfl
    have legal : Delivers source (state.act hashes roles ⟨source, .chunk published.manifest.id index, 0, none⟩)
        ⟨source.other, .receiveChunk (chunkOf hashes published.manifest.id published.blob index), 0, none⟩ := by
      have data : (chunkOf hashes published.manifest.id published.blob index).data = slice chunkBytes published.blob
          (chunkOf hashes published.manifest.id published.blob index).index.toNat :=
        congrArg (slice chunkBytes published.blob) (Int.toNat_natCast index).symm
      refine ⟨rfl, fun _ => ⟨published, ?_, data⟩⟩
      rw [at'.sender]
      rw [named]
      exact found
    refine ensures_bind _ (artifactRetry_answers at' legal sent rfl) fun receipt => ensures_each ?_
    rintro after ⟨rfl, rfl⟩
    subst stored_
    refine ensures_ite (fun differs => ?_) fun _ => ?_
    · rcases differs with differs | differs | differs | differs <;> exact absurd rfl differs
    refine (known others later).weaken ?_ (fun _ _ at_ => at_) fun _ wrong => wrong
    rintro disk rfl
    have moved := at'.receive hashes roles
      (.receiveChunk (chunkOf hashes published.manifest.id published.blob index))
    exact moved

theorem start_progress (admits : Admits hashes (roles source.other) receiver published.manifest)
    (parts : ∀ entry, receiver.incoming.get? published.manifest.id = some entry → Transfers entry published)
    {progress : Progress Digest}
    (answered : (receiver.start hashes (roles source.other) published.manifest).2 = .ok progress) :
    progress.id = published.manifest.id ∧ progress.nextIndex ≤ published.manifest.count := by
  rw [start_admits admits] at answered
  cases there : receiver.incoming.get? published.manifest.id with
  | none =>
    rw [there] at answered
    cases answered
    exact ⟨rfl, Nat.zero_le _⟩
  | some entry =>
    rw [there] at answered
    cases answered
    obtain ⟨manifest, ⟨count, whole, first⟩, -⟩ := parts entry there
    refine ⟨rfl, ?_⟩
    rw [first.nextIndex, ← manifest]
    exact whole

/-- A published artifact is recorded as delivered, and the other side holds its content. -/
def Delivered (source : Side) (state : Exchange Digest) (id : Digest) : Prop :=
  ∃ entry, (state.queues source).outgoing.get? id = some entry ∧
    entry.delivery = some (.whole (receiptOf entry.manifest)) ∧
    (state.queues source.other).Holds entry.manifest entry.blob

/-- **A round of which nothing is lost delivers an admitted artifact.** -/
theorem pumpRound_delivers (collisionFree : hashes.CollisionFree) (ready : Ready hashes source state)
    (found : (state.queues source).outgoing.get? id = some published) (fresh : published.delivery = none)
    (next : (state.queues source).next hashes = ([], .ok (some published.manifest)))
    (admits : Admits hashes (roles source.other) (state.queues source.other) published.manifest) :
    Delivered source (pumpRound hashes roles source allAnswered state) id := by
  have fine := (ready.sound source).outgoing id published found
  have named : published.manifest.id = id := fine.named
  have there : (state.queues source).outgoing.get? published.manifest.id = some published := by
    rw [named]
    exact found
  obtain ⟨done, transfers, holds⟩ := transfer_completes collisionFree (ready.sound source.other) fine admits
    (fun entry => ready.parts id published entry found) 0
  obtain ⟨⟨started, progress⟩, starts, rest⟩ := bind_eq_some_iff.mp transfers
  obtain ⟨received, sends, commits⟩ := bind_eq_some_iff.mp rest
  obtain ⟨startAnswered, rfl⟩ := complete_replay starts
  obtain ⟨commitAnswered, rfl⟩ := complete_replay commits
  obtain ⟨own, within⟩ := start_progress admits
    (fun entry known => ready.parts id published entry found (named ▸ known)) startAnswered
  generalize sent : (state.queues source.other).replay
    ((state.queues source.other).start hashes (roles source.other) published.manifest).1 = started at sends
  -- Each call is answered.
  have asked : ((state.queues source).serve hashes (roles source) 0 .next).2 = .ok (.next (some published.manifest)) :=
    congrArg (fun outcome => (outcome.map Answer.next).2) next
  have begun : ((state.queues source.other).serve hashes (roles source.other) 0 (.start published.manifest)).2
      = .ok (.progress progress) := by
    show Except.map Answer.progress _ = _
    rw [startAnswered]
    rfl
  have ended : (received.serve hashes (roles source.other) 0 (.commit published.manifest.id)).2
      = .ok (.committed (receiptOf published.manifest)) := by
    show Except.map Answer.committed _ = _
    rw [commitAnswered]
    rfl
  have records : (state.queues source).acknowledge hashes (receiptOf published.manifest) = _ :=
    acknowledge_bound there fine.valid rfl (Or.inl fresh)
  have recorded : ((state.queues source).serve hashes (roles source) 0 (.acknowledge (receiptOf published.manifest))).2
      = .ok (.acknowledged (receiptOf published.manifest)) := by
    show Except.map Answer.acknowledged _ = _
    rw [records]
    rfl
  have ensured : Script.Ensures (· = state) (artifactPump hashes roles source allAnswered)
      (fun _ after => Delivered source after id) (fun _ => False) := by
    have at_ : At source state (state.queues source) (state.queues source.other) := ⟨rfl, rfl⟩
    refine ensures_bind _ (api_answers at_ ⟨rfl, trivial⟩ asked rfl) fun offer => ensures_each ?_
    rintro first ⟨rfl, rfl⟩
    have at_ : At source (state.act hashes roles ⟨source, .next, 0, none⟩) (state.queues source)
        (state.queues source.other) := by
      have moved := at_.send hashes roles .next
      have idle : ((state.queues source).serve hashes (roles source) 0 .next).1 = [] := congrArg fst next
      rw [idle] at moved
      exact moved
    obtain ⟨chunks, positive, most⟩ := manifest_bounds fine.valid
    refine ensures_ite (fun bad => ?_) fun _ => ?_
    · rcases bad with bad | bad | bad
      · exact absurd chunks bad
      · exact absurd positive (not_lt.mpr bad)
      · exact absurd most (not_le.mpr bad)
    have legal : Delivers source (state.act hashes roles ⟨source, .next, 0, none⟩)
        ⟨source.other, .start published.manifest, 0, none⟩ := by
      refine ⟨rfl, fun _ => ⟨published, ?_, rfl⟩⟩
      rw [at_.sender]
      exact there
    refine ensures_bind _ (artifactRetry_answers at_ legal begun rfl) fun answer => ensures_each ?_
    rintro second ⟨rfl, rfl⟩
    refine ensures_ite (fun bad => ?_) fun _ => ?_
    · rcases bad with bad | bad
      · exact absurd own bad
      · exact absurd within (not_le.mpr bad)
    have at_ := at_.receive hashes roles (.start published.manifest)
    rw [serve_start, sent] at at_
    refine ensures_bind (fun _ after => At source after (state.queues source) received) ?_ fun _ =>
      ensures_each fun third at_ => ?_
    · refine (sendChunks_answers found fine _ (fun index mem => ?_) sends).weaken ?_ (fun _ _ here => here)
        fun _ wrong => wrong
      · obtain ⟨-, below⟩ := mem_range'_1.mp mem
        omega
      · rintro disk rfl
        exact at_
    refine ensures_bind _ (artifactRetry_answers at_ ⟨rfl, trivial⟩ ended rfl) fun receipt =>
      ensures_each ?_
    rintro fourth ⟨rfl, rfl⟩
    refine ensures_ite (fun bad => ?_) fun _ => ?_
    · rcases bad with bad | bad | bad | bad <;> exact absurd rfl bad
    have at_ := at_.receive hashes roles (.commit published.manifest.id)
    have legal : Delivers source (third.act hashes roles ⟨source.other, .commit published.manifest.id, 0, none⟩)
        ⟨source, .acknowledge (receiptOf published.manifest), 0, none⟩ := by
      obtain ⟨entry, found, -, receipt, -⟩ := holds
      refine ⟨rfl, fun _ => ⟨entry, ?_, receipt⟩⟩
      rw [at_.receiver]
      exact found
    refine ensures_bind _ (api_answers at_ legal recorded rfl) fun receipt => ensures_done ?_
    rintro last ⟨-, rfl⟩
    -- The delivery is recorded, and the rest of the directory stays as it is.
    have grown := (grows_act hashes roles (third.act hashes roles ⟨source.other, .commit published.manifest.id, 0, none⟩)
      ⟨source, .acknowledge (receiptOf published.manifest), 0, none⟩ source).outgoing id published
    rw [at_.sender] at grown
    obtain ⟨later, found', grows⟩ := grown found
    have at_ := at_.send hashes roles (.acknowledge (receiptOf published.manifest))
    have answered : ((state.queues source).acknowledge hashes (receiptOf published.manifest)).2
        = .ok (receiptOf published.manifest) := by rw [records]
    obtain ⟨entry, written, -, same, delivered, -⟩ := acknowledge_recorded answered
    have here : later = entry := by
      rw [at_.sender] at found'
      refine Option.mem_unique found' ?_
      rw [← named]
      exact written
    subst here
    refine ⟨later, found', by rw [delivered, same], ?_⟩
    rw [at_.receiver, grows.manifest, grows.blob]
    exact holds
  obtain ⟨-, ends⟩ := ensured state rfl
  cases result : ((artifactPump hashes roles source allAnswered).run state).2 with
  | error error =>
    rw [result] at ends
    exact ends.elim
  | ok value =>
    rw [result] at ends
    exact ends

end Rounds

/-! ### Runs of the loop -/

section Runs

variable {hashes : Hashes Digest} {roles : Side → Option Side} {source : Side} {start state later : Exchange Digest}
  {action : Action Digest} {name : Digest} {published : Outgoing Digest} {count : ℕ}

/-- Rounds of the loop, with calls beside them, by the number of rounds of which nothing is lost. -/
inductive Rounds (hashes : Hashes Digest) (roles : Side → Option Side) (source : Side)
    (beside : Action Digest → Prop) (start : Exchange Digest) : ℕ → Exchange Digest → Prop
  | start : Rounds hashes roles source beside start 0 start
  | whole {count : ℕ} {state : Exchange Digest} : Rounds hashes roles source beside start count state →
      Rounds hashes roles source beside start (count + 1) (pumpRound hashes roles source allAnswered state)
  | round {count : ℕ} {state : Exchange Digest} (fates : Fates) :
      Rounds hashes roles source beside start count state →
      Rounds hashes roles source beside start count (pumpRound hashes roles source fates state)
  | beside {count : ℕ} {state : Exchange Digest} {action : Action Digest} :
      Rounds hashes roles source beside start count state → Delivers source state action → beside action →
      Rounds hashes roles source beside start count (state.act hashes roles action)

/-- The other side rejects a manifest: its start raises. -/
def Rejects (hashes : Hashes Digest) (roles : Side → Option Side) (source : Side) (state : Exchange Digest)
    (manifest : Manifest Digest) : Prop :=
  ∀ progress, ((state.queues source.other).start hashes (roles source.other) manifest).2 ≠ .ok progress

theorem rejects_iff : Rejects hashes roles source state manifest ↔
    ¬ Admits hashes (roles source.other) (state.queues source.other) manifest := by
  refine ⟨fun rejects admits => ?_, fun rejected progress answered => rejected (admits_of_answered answered)⟩
  have starts := start_admits admits
  cases there : (state.queues source.other).incoming.get? manifest.id with
  | none | some =>
    rw [there] at starts
    exact rejects _ (congrArg snd starts)

/-- **What is rejected stays so.** -/
theorem rejects_act (rejects : Rejects hashes roles source state manifest)
    (delivers : Delivers source state action) :
    Rejects hashes roles source (state.act hashes roles action) manifest := by
  obtain ⟨after, change, acts⟩ := delivers_cases hashes roles delivers
  refine rejects_iff.mpr fun admits => rejects_iff.mp rejects ?_
  obtain ⟨here, same⟩ | ⟨-, same⟩ := act_queue after acts source.other
  · rw [same] at admits
    rw [← here] at change
    exact change.admits_before admits
  · rw [same] at admits
    exact admits

theorem delivered_act (delivered : Delivered source state name) :
    Delivered source (state.act hashes roles action) name := by
  obtain ⟨entry, found, written, received, there, manifest, receipt, blob⟩ := delivered
  obtain ⟨later, found', grown⟩ := (grows_act hashes roles state action source).outgoing _ _ found
  obtain ⟨later', there', grown'⟩ := (grows_act hashes roles state action source.other).incoming _ _ there
  obtain ⟨receipt', blob'⟩ := grown'.receipt _ receipt
  refine ⟨later, found', ?_, later', ?_, ?_, ?_, ?_⟩
  · rw [grown.manifest]
    exact grown.delivery _ written
  · rw [grown.manifest]
    exact there'
  · rw [grown.manifest, grown'.manifest, manifest]
  · rw [grown.manifest]
    exact receipt'
  · rw [grown.blob, blob', blob]

theorem undelivered_act (delivers : Delivers source state action)
    (waits : ((state.act hashes roles action).queues source).Undelivered name) :
    (state.queues source).Undelivered name := by
  obtain ⟨later, found, fresh⟩ := waits
  obtain ⟨earlier, there, rfl | ⟨receipt, -, -, -, -, rfl⟩⟩ := delivers_outgoing hashes roles delivers found
  · exact ⟨later, there, fresh⟩
  · cases fresh

/-- The artifacts without a delivery whose ids are before an id. -/
def ahead (hashes : Hashes Digest) (queue : Queue Digest) (name : Digest) : List Digest :=
  (queue.outgoing.items.filter fun item =>
    item.2.delivery.isNone && hashes.before item.1 name && decide (item.1 ≠ name)).map fst

theorem mem_ahead {queue : Queue Digest} {other : Digest} : other ∈ ahead hashes queue name ↔
    queue.Undelivered other ∧ hashes.before other name = true ∧ other ≠ name := by
  unfold ahead
  simp only [mem_map, mem_filter, Bool.and_eq_true, decide_eq_true_eq, Option.isNone_iff_eq_none]
  constructor
  · rintro ⟨⟨_, entry⟩, ⟨mem, ⟨fresh, before⟩, differs⟩, rfl⟩
    exact ⟨⟨entry, mem_items.mp mem, fresh⟩, before, differs⟩
  · rintro ⟨⟨entry, found, fresh⟩, before, differs⟩
    exact ⟨(other, entry), ⟨mem_items.mpr found, ⟨fresh, before⟩, differs⟩, rfl⟩

theorem ahead_nodup (hashes : Hashes Digest) (queue : Queue Digest) (name : Digest) :
    (ahead hashes queue name).Nodup :=
  queue.outgoing.distinct.sublist (filter_sublist.map fst)

/-! ### Along a delivery -/

variable (path : (deliveries hashes roles source).Evolves state later)

include path

theorem rejects_evolves (rejects : Rejects hashes roles source state manifest) :
    Rejects hashes roles source later manifest :=
  path.keeps (Rejects hashes roles source · manifest) (fun _ _ legal rejects => rejects_act rejects legal) rejects

theorem delivered_evolves (delivered : Delivered source state name) : Delivered source later name :=
  path.keeps (Delivered source · name) (fun _ _ _ delivered => delivered_act delivered) delivered

theorem undelivered_evolves (waits : (later.queues source).Undelivered name) :
    (state.queues source).Undelivered name :=
  path.keeps (fun later => (later.queues source).Undelivered name → (state.queues source).Undelivered name)
    (fun _ _ legal known waits => known (undelivered_act legal waits)) id waits

theorem ahead_le : (ahead hashes (later.queues source) name).length ≤ (ahead hashes (state.queues source) name).length := by
  refine (subperm_of_subset (ahead_nodup ..) fun other mem => ?_).length_le
  obtain ⟨waits, before⟩ := mem_ahead.mp mem
  exact mem_ahead.mpr ⟨undelivered_evolves path waits, before⟩

theorem ahead_lt {first : Digest} (mem : first ∈ ahead hashes (state.queues source) name)
    (delivered : Delivered source later first) :
    (ahead hashes (later.queues source) name).length + 1 ≤ (ahead hashes (state.queues source) name).length := by
  have gone : first ∉ ahead hashes (later.queues source) name := by
    intro still
    obtain ⟨⟨entry, found, fresh⟩, -⟩ := mem_ahead.mp still
    obtain ⟨entry', found', written, -⟩ := delivered
    cases found.symm.trans found'
    cases fresh.symm.trans written
  refine (subperm_of_subset (nodup_cons.mpr ⟨gone, ahead_nodup ..⟩) fun other there => ?_).length_le
  rcases mem_cons.mp there with rfl | there
  · exact mem
  · obtain ⟨waits, before⟩ := mem_ahead.mp there
    exact mem_ahead.mpr ⟨undelivered_evolves path waits, before⟩

theorem grows_evolves (side : Side) : (state.queues side).Grows (later.queues side) :=
  path.keeps (fun later => (state.queues side).Grows (later.queues side))
    (fun before action _ grows => grows.trans (grows_act hashes roles before action side)) (.refl _)

omit path

theorem delivered_or_waits (collisionFree : hashes.CollisionFree) (ready : Ready hashes source state)
    (found : (state.queues source).outgoing.get? name = some published) :
    Delivered source state name ∨ (state.queues source).Undelivered name := by
  cases written : published.delivery with
  | none => exact Or.inr ⟨published, found, written⟩
  | some file =>
    obtain ⟨rfl, received, there, receipt⟩ := ready.delivered name published found file written
    have named := ((ready.sound source).outgoing name published found).named
    obtain ⟨blob, stored, -, -, same⟩ := (bound_of_sound collisionFree ready.sound).content _ _ _ there
      (by rw [receipt]; rfl)
    refine Or.inl ⟨published, found, written, received, ?_, (ready.parts _ _ _ found there).manifest, receipt, ?_⟩
    · rw [named]
      exact there
    · rw [stored, same source published found]

/-- In a run, an artifact is delivered; or one that is first at its turn is rejected; or it waits, and there are
as many fewer ahead of it as there were whole rounds. -/
structure Turn (hashes : Hashes Digest) (roles : Side → Option Side) (source : Side) (start : Exchange Digest)
    (name : Digest) (count : ℕ) (state : Exchange Digest) : Prop where
  path : (deliveries hashes roles source).Evolves start state
  outcome : Delivered source state name ∨
    (∃ other entry, (start.queues source).outgoing.get? other = some entry ∧ entry.delivery = none ∧
      hashes.before other name = true ∧ Rejects hashes roles source state entry.manifest) ∨
    (state.queues source).Undelivered name ∧
      (ahead hashes (state.queues source) name).length + count ≤ (ahead hashes (start.queues source) name).length

section

variable (turn : Turn hashes roles source start name count state) (collisionFree : hashes.CollisionFree)
include turn collisionFree

theorem Turn.evolves (ready : Ready hashes source start)
    (found : (start.queues source).outgoing.get? name = some published)
    (path : (deliveries hashes roles source).Evolves state later) :
    Turn hashes roles source start name count later := by
  refine ⟨turn.path.trans path, ?_⟩
  rcases turn.outcome with delivered | ⟨other, entry, there, fresh, before, rejects⟩ | ⟨-, bound⟩
  · exact Or.inl (delivered_evolves path delivered)
  · exact Or.inr (Or.inl ⟨other, entry, there, fresh, before, rejects_evolves path rejects⟩)
  · obtain ⟨entry, here, -⟩ := (grows_evolves (turn.path.trans path) source).outgoing _ _ found
    rcases delivered_or_waits collisionFree (ready_evolves ready (turn.path.trans path)) here with delivered | waits
    · exact Or.inl delivered
    · exact Or.inr (Or.inr ⟨waits, le_trans (Nat.add_le_add_right (ahead_le path) _) bound⟩)

theorem Turn.whole (ordered : hashes.Ordered) (ready : Ready hashes source start)
    (found : (start.queues source).outgoing.get? name = some published) :
    Turn hashes roles source start name (count + 1) (pumpRound hashes roles source allAnswered state) := by
  have ready' := ready_evolves ready turn.path
  have path := pumpRound_evolves roles allAnswered ready'
  obtain ⟨path', outcome⟩ := turn.evolves collisionFree ready found path
  refine ⟨path', ?_⟩
  rcases outcome with delivered | rejected | ⟨waits, -⟩
  · exact Or.inl delivered
  · exact Or.inr (Or.inl rejected)
  rcases turn.outcome with delivered | ⟨other, entry, there, fresh, before, rejects⟩ | ⟨waited, bound⟩
  · exact Or.inl (delivered_evolves path delivered)
  · exact Or.inr (Or.inl ⟨other, entry, there, fresh, before, rejects_evolves path rejects⟩)
  obtain ⟨first, entry, there, fresh, named, next, least⟩ := next_first ordered (ready'.sound source) waited
  by_cases admits : Admits hashes (roles source.other) (state.queues source.other) entry.manifest
  · have delivered := pumpRound_delivers collisionFree ready' there fresh next admits
    by_cases own : first = name
    · exact Or.inl (own ▸ delivered)
    · have fewer := ahead_lt path (mem_ahead.mpr ⟨⟨entry, there, fresh⟩, least name waited, own⟩) delivered
      exact Or.inr (Or.inr ⟨waits, by omega⟩)
  · -- The first artifact is rejected; it was there at the start.
    obtain ⟨earlier, before, none_⟩ := undelivered_evolves turn.path ⟨entry, there, fresh⟩
    obtain ⟨later, there', grown⟩ := (grows_evolves turn.path source).outgoing _ _ before
    cases there.symm.trans there'
    rw [grown.manifest] at admits
    exact Or.inr (Or.inl ⟨first, earlier, before, none_, least name waited,
      rejects_evolves path (rejects_iff.mpr admits)⟩)

end

theorem turn_run {beside : Action Digest → Prop} (collisionFree : hashes.CollisionFree) (ordered : hashes.Ordered)
    (ready : Ready hashes source start) (found : (start.queues source).outgoing.get? name = some published)
    (fresh : published.delivery = none) (run : Rounds hashes roles source beside start count state) :
    Turn hashes roles source start name count state := by
  induction run with
  | start => exact ⟨.refl _, Or.inr (Or.inr ⟨⟨published, found, fresh⟩, le_rfl⟩)⟩
  | whole _ known => exact known.whole collisionFree ordered ready found
  | round fates _ known =>
    exact known.evolves collisionFree ready found (pumpRound_evolves roles fates (ready_evolves ready known.path))
  | beside _ delivers _ known =>
    exact known.evolves collisionFree ready found (Relation.ReflTransGen.single ⟨_, delivers, rfl⟩)

theorem rounds_path {beside : Action Digest → Prop} (ready : Ready hashes source start)
    (run : Rounds hashes roles source beside start count state) :
    (deliveries hashes roles source).Evolves start state := by
  induction run with
  | start => exact .refl _
  | whole _ known => exact known.trans (pumpRound_evolves roles allAnswered (ready_evolves ready known))
  | round fates _ known => exact known.trans (pumpRound_evolves roles fates (ready_evolves ready known))
  | beside _ delivers _ known => exact known.trans (Relation.ReflTransGen.single ⟨_, delivers, rfl⟩)

def acknowledgesNothing (source : Side) (action : Action Digest) : Prop :=
  ∀ receipt, action.call = .acknowledge receipt → action.side ≠ source

theorem outgoing_act (delivers : Delivers source state action) (nothing : acknowledgesNothing source action) :
    ((state.act hashes roles action).queues source).outgoing = (state.queues source).outgoing := by
  obtain ⟨after, change, acts⟩ := delivers_cases hashes roles delivers
  obtain ⟨here, same⟩ | ⟨-, same⟩ := act_queue after acts source
  · have allowed := delivers.2
    obtain ⟨side, call, cut, stop⟩ := action
    obtain rfl : source = side := here
    rw [same]
    cases change with
    | rest | started | stored | rebuilt | replaced | committed => rfl
    | published => exact absurd rfl allowed
    | delivered => exact absurd rfl (nothing _ rfl)
  · rw [same]

theorem next_idle (queue : Queue Digest) : (queue.next hashes).1 = [] := by
  unfold Queue.next
  simp only
  repeat' split
  all_goals rfl

/-- `next` answers by what is published. -/
theorem next_congr {first second : Queue Digest} (same : first.outgoing = second.outgoing) :
    first.next hashes = second.next hashes := by
  unfold Queue.next
  rw [same]

/-- **While the next artifact is rejected, nothing is delivered.** -/
theorem rejected_run (ready : Ready hashes source start)
    (next : ((start.queues source).next hashes).2 = .ok (some manifest))
    (rejects : Rejects hashes roles source start manifest)
    (run : Rounds hashes roles source (acknowledgesNothing source) start count state) :
    (state.queues source).outgoing = (start.queues source).outgoing := by
  -- A round changes nothing as long as the published artifacts are the same.
  have idle : ∀ {state fates}, (deliveries hashes roles source).Evolves start state →
      (state.queues source).outgoing = (start.queues source).outgoing →
      (pumpRound hashes roles source fates state).queues = state.queues := by
    intro state fates path same
    have next' : ((state.queues source).next hashes).2 = .ok (some manifest) := by
      rw [next_congr same]
      exact next
    refine pumpRound_rejected (Prod.ext (next_idle _) next') ?_
      (rejects_iff.mp (rejects_evolves path rejects)) fates
    exact next_answered ((ready_evolves ready path).sound source) next'
  induction run with
  | start => rfl
  | whole run same | round _ run same =>
    rw [idle (rounds_path ready run) same]
    exact same
  | beside _ delivers nothing same => exact (outgoing_act delivers nothing).trans same

/-- **The loop delivers in the order of the ids, up to the first artifact that is rejected.** In a run of its
rounds, whatever is lost of them and whatever other calls are made beside them: an artifact is delivered
after as many whole rounds as there were artifacts ahead of it, and one more, unless the other side rejects
one that is not behind it. What is rejected stays so; while the next artifact is rejected, no round delivers
anything. -/
theorem pump_order (hashes : Hashes Digest) (collisionFree : hashes.CollisionFree) (ordered : hashes.Ordered)
    (roles : Side → Option Side) (source : Side) (start : Exchange Digest) (ready : Ready hashes source start) :
    (∀ (name : Digest) (count : ℕ) (state : Exchange Digest), (start.queues source).Undelivered name →
      Rounds hashes roles source (fun _ => True) start count state →
      (ahead hashes (start.queues source) name).length < count →
      Delivered source state name ∨
        ∃ other entry, (start.queues source).outgoing.get? other = some entry ∧ entry.delivery = none ∧
          hashes.before other name = true ∧ Rejects hashes roles source state entry.manifest) ∧
    ∀ manifest : Manifest Digest, Rejects hashes roles source start manifest →
      (∀ (count : ℕ) (state : Exchange Digest), Rounds hashes roles source (fun _ => True) start count state →
        Rejects hashes roles source state manifest) ∧
      (∀ (count : ℕ) (state : Exchange Digest), Rounds hashes roles source (acknowledgesNothing source) start count state →
        ((start.queues source).next hashes).2 = .ok (some manifest) →
        (state.queues source).outgoing = (start.queues source).outgoing ∧
          Rejects hashes roles source state manifest) := by
  refine ⟨fun name count state waits run many => ?_, fun manifest rejects => ⟨fun count state run => ?_,
    fun count state run next => ?_⟩⟩
  · obtain ⟨published, found, fresh⟩ := waits
    obtain ⟨-, delivered | rejected | ⟨-, bound⟩⟩ := turn_run collisionFree ordered ready found fresh run
    · exact Or.inl delivered
    · exact Or.inr rejected
    · omega
  · exact rejects_evolves (rounds_path ready run) rejects
  · exact ⟨rejected_run ready next rejects run, rejects_evolves (rounds_path ready run) rejects⟩

end Runs

/-! ### Two artifacts of which one is rejected -/

def codeOf (number : ℤ) : ℕ := if 0 ≤ number then 2 * number.toNat else 2 * (-number).toNat + 1

theorem codeOf_injective : Function.Injective codeOf := by
  intro first second same
  unfold codeOf at same
  split_ifs at same <;> omega

def Kind.code : Kind → ℕ
  | .policyLease => 0
  | .sealedGroup => 1
  | .publicCapsule => 2

/-- Digests that write out what they are of, in the order of their numbers. -/
def listHashes : Hashes (List ℕ) where
  content bytes := bytes.map UInt8.toNat
  identity body := body.kind.code :: codeOf body.schemaVersion :: codeOf body.bytes :: codeOf body.chunkBytes ::
    body.key.toList.length :: (body.key.toList.map Char.toNat ++ body.sha256)
  before first second := decide (first ≤ second)

theorem list_collisionFree : listHashes.CollisionFree where
  content one two same := map_injective_iff.mpr (fun _ _ => UInt8.toNat_inj.mp) same
  identity one two same := by
    obtain ⟨version, kind, key, bytes, sha256, chunk⟩ := one
    obtain ⟨version', kind', key', bytes', sha256', chunk'⟩ := two
    simp only [listHashes, cons.injEq] at same
    obtain ⟨kinds, versions, sizes, chunks, lengths, rest⟩ := same
    obtain ⟨keys, digests⟩ := append_inj rest (by simpa using lengths)
    obtain rfl := codeOf_injective versions
    obtain rfl := codeOf_injective sizes
    obtain rfl := codeOf_injective chunks
    obtain rfl : key = key' := String.toList_inj.mp (map_injective_iff.mpr (fun _ _ => Char.toNat_inj.mp) keys)
    obtain rfl : kind = kind' := by cases kind <;> cases kind' <;> first | rfl | cases kinds
    rw [digests]

theorem list_ordered : listHashes.Ordered where
  total first second := (le_total first second).imp decide_eq_true decide_eq_true
  trans first second third low high :=
    decide_eq_true (le_trans (of_decide_eq_true (p := first ≤ second) low) (of_decide_eq_true (p := second ≤ third) high))
  antisymm first second low high :=
    le_antisymm (of_decide_eq_true (p := first ≤ second) low) (of_decide_eq_true (p := second ≤ first) high)

def oneByte (kind : Kind) : Outgoing (List ℕ) := ⟨manifestOf listHashes kind "k" [7], [7], none⟩

/-- The CPU side has published contents of these kinds, and the GPU side has nothing. -/
def publishedAs (kinds : List Kind) : Exchange (List ℕ) where
  queues
    | .cpu => { Queue.empty with
        outgoing := kinds.foldr (fun kind table => table.push (oneByte kind).manifest.id (oneByte kind)) ∅ }
    | .gpu => Queue.empty
  sent := []

theorem oneByte_sound (kind : Kind) : (oneByte kind).Sound listHashes (oneByte kind).manifest.id where
  valid := by cases kind <;> decide
  named := rfl
  pins := ⟨rfl, rfl⟩
  delivery _ written := by cases written

theorem published_cases {kinds : List Kind} {id : List ℕ} {entry : Outgoing (List ℕ)}
    (found : ((publishedAs kinds).queues .cpu).outgoing.get? id = some entry) :
    ∃ kind ∈ kinds, id = (oneByte kind).manifest.id ∧ entry = oneByte kind := by
  induction kinds with
  | nil => cases found
  | cons kind rest known =>
    rcases push_cases found with ⟨here, rfl⟩ | ⟨-, found⟩
    · exact ⟨kind, mem_cons_self, here, rfl⟩
    · obtain ⟨other, mem, same⟩ := known found
      exact ⟨other, mem_cons_of_mem _ mem, same⟩

theorem published_ready {kinds : List Kind} (few : ((publishedAs kinds).queues .cpu).manifests.length ≤ maxArtifacts)
    (small : ((publishedAs kinds).queues .cpu).load ≤ maxQueueBytes) : Ready listHashes .cpu (publishedAs kinds) where
  sound
    | .cpu => by
        refine ⟨fun id entry found => ?_, fun id entry found => (nomatch found), fun _ _ _ _ found => (nomatch found),
          few, small⟩
        obtain ⟨kind, -, rfl, rfl⟩ := published_cases found
        exact oneByte_sound kind
    | .gpu => sound_empty
  parts _ _ _ _ found := by cases found
  delivered id published found file written := by
    obtain ⟨kind, -, rfl, rfl⟩ := published_cases found
    cases written

/-- The artifact is alone, and delivered by one round. -/
theorem pump_order_alone :
    Delivered .cpu (pumpRound listHashes some .cpu allAnswered (publishedAs [.sealedGroup]))
      (oneByte .sealedGroup).manifest.id := by
  have ready : Ready listHashes .cpu (publishedAs [.sealedGroup]) := published_ready (by decide) (by decide)
  have waits : ((publishedAs [.sealedGroup]).queues .cpu).Undelivered (oneByte .sealedGroup).manifest.id :=
    ⟨oneByte .sealedGroup, get?_push_self, rfl⟩
  obtain ⟨delivers, -⟩ := pump_order listHashes list_collisionFree list_ordered some .cpu (publishedAs [.sealedGroup])
    ready
  rcases delivers _ 1 _ waits Rounds.start.whole (by decide) with delivered | ⟨other, entry, found, -, -, rejects⟩
  · exact delivered
  · obtain ⟨kind, member, rfl, rfl⟩ := published_cases found
    obtain rfl := mem_singleton.mp member
    refine absurd ?_ (rejects ⟨(oneByte .sealedGroup).manifest.id, 1, true⟩)
    decide +kernel

/-- A lease that the GPU side rejects, ahead of a group that it admits: no round delivers the group, whatever is
lost or not. -/
theorem pump_blocked : ∃ (hashes : Hashes (List ℕ)) (start : Exchange (List ℕ)) (group : Manifest (List ℕ)),
    hashes.CollisionFree ∧ hashes.Ordered ∧ Ready hashes .cpu start ∧ (start.queues .cpu).Undelivered group.id ∧
      ∀ (count : ℕ) (state : Exchange (List ℕ)), Rounds hashes some .cpu (fun _ => False) start count state →
        (∃ progress, ((state.queues .gpu).start hashes (some .gpu) group).2 = .ok progress) ∧
          ¬ Delivered .cpu state group.id := by
  have ready : Ready listHashes .cpu (publishedAs [.policyLease, .sealedGroup]) :=
    published_ready (by decide) (by decide)
  have lease : ((publishedAs [.policyLease, .sealedGroup]).queues .cpu).outgoing.get? (oneByte .policyLease).manifest.id
      = some (oneByte .policyLease) := get?_push_self
  have group : ((publishedAs [.policyLease, .sealedGroup]).queues .cpu).outgoing.get? (oneByte .sealedGroup).manifest.id
      = some (oneByte .sealedGroup) :=
    (get?_push_ne (by decide)).trans get?_push_self
  -- The lease is the next artifact.
  have next : ((publishedAs [.policyLease, .sealedGroup]).queues .cpu).next listHashes
      = ([], .ok (some (oneByte .policyLease).manifest)) := by
    obtain ⟨first, entry, found, -, -, next, least⟩ := next_first list_ordered (ready.sound .cpu)
      ⟨_, lease, rfl⟩
    obtain ⟨kind, member, rfl, rfl⟩ := published_cases found
    rcases mem_pair.mp member with rfl | rfl
    · exact next
    · exact absurd (least _ ⟨_, lease, rfl⟩) (by decide)
  have rejected : ¬ Admits listHashes (some .gpu) ((publishedAs [.policyLease, .sealedGroup]).queues .gpu)
      (oneByte .policyLease).manifest := fun admits => admits.fits (Or.inr ⟨rfl, rfl⟩)
  refine ⟨listHashes, publishedAs [.policyLease, .sealedGroup], (oneByte .sealedGroup).manifest, list_collisionFree,
    list_ordered, ready, ⟨_, group, rfl⟩, fun count state run => ?_⟩
  have same : state.queues = (publishedAs [.policyLease, .sealedGroup]).queues := by
    have idle : ∀ {state fates}, state.queues = (publishedAs [.policyLease, .sealedGroup]).queues →
        (pumpRound listHashes some .cpu fates state).queues = (publishedAs [.policyLease, .sealedGroup]).queues := by
      intro state fates same
      refine (pumpRound_rejected (same ▸ next) ⟨_, same ▸ lease, rfl⟩ (same ▸ rejected) fates).trans same
    induction run with
    | start => rfl
    | whole _ known | round _ _ known => exact idle known
    | beside _ _ never _ => exact never.elim
  refine ⟨⟨⟨(oneByte .sealedGroup).manifest.id, 0, false⟩, ?_⟩, ?_⟩
  · rw [same]
    decide
  · rintro ⟨entry, found, written, -⟩
    rw [same, group] at found
    cases found
    cases written

end TinyDSV41.Artifacts
