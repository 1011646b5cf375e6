/-
**The delivery loop of the page.**

The page of a relay asks its own queue for the next artifact, carries it to the other side and records the
delivery. Whatever fails is logged, and a second later the loop begins again with the next artifact. Each
call may be lost on its way there or back.

* `artifactRetry`, `artifactPump` — a round of the loop, as the page makes it.
* `Ready` — a published artifact is not there, or arrives in order; no delivery file is torn.
* `artifactPump_ensures` — whatever is lost, the calls of a round are calls of a delivery.

A call that is made is made to its end. Pairing is not modelled: without it no round begins.
-/

import TinyDSV41.Artifacts.Recovery

namespace TinyDSV41.Artifacts

open Lib Option Answer OrderedTable Exchange
open Script (ensures_bind ensures_done ensures_ite ensures_raise perform raise)

variable {Digest : Type} [DecidableEq Digest]

/-! ### A round -/

/-- What becomes of a call: it is answered in time, it is not made, or it is made and not answered. -/
inductive Fate
  | answered
  | lost (error : String)
  | unanswered (error : String)

inductive Stage
  | next
  | start
  | read (index : ℕ)
  | chunk (index : ℕ)
  | commit
  | acknowledge

/-- The fates of the calls of a round, attempt by attempt. -/
abbrev Fates := Stage → ℕ → Fate

def allAnswered : Fates := fun _ _ => .answered

/-- A call on a side that the delivery makes, or may find beside it: a start of what the other side has
published, a chunk of it, an acknowledgement of what the other side has committed; on the publishing side
nothing is published. -/
def Delivers (source : Side) (state : Exchange Digest) (action : Action Digest) : Prop :=
  action.stop = none ∧ match action.call with
  | .publish _ _ _ _ => action.side ≠ source
  | .start manifest => action.side = source.other →
      ∃ entry, (state.queues source).outgoing.get? manifest.id = some entry ∧ entry.manifest = manifest
  | .receiveChunk value => action.side = source.other →
      ∃ entry, (state.queues source).outgoing.get? value.id = some entry ∧
        value.data = slice chunkBytes entry.blob value.index.toNat
  | .acknowledge receipt => action.side = source →
      ∃ entry, (state.queues source.other).incoming.get? receipt.id = some entry ∧
        entry.receipt = some (.whole receipt)
  | .next | .chunk _ _ | .commit _ => True

variable (hashes : Hashes Digest) (roles : Side → Option Side) (source : Side)

/-- The two queues, under the calls of a delivery. -/
def deliveries : Storage (Exchange Digest) (Action Digest) where
  apply := act hashes roles
  legal := Delivers source

abbrev PageScript (Value : Type) := Script (deliveries hashes roles source) String Value

/-- A call that the page makes on a side; an answer is read as `read` says. -/
def request {Value : Type} (fate : Fate) (side : Side) (call : Call Digest) (read : Answer Digest → Option Value) :
    PageScript hashes roles source (Except String Value) := do
  let state ← Script.observe
  match fate with
  | .lost error => pure (.error error)
  | .unanswered error =>
    perform ⟨side, call, 0, none⟩
    pure (.error error)
  | .answered =>
    perform ⟨side, call, 0, none⟩
    match (state.serve hashes roles ⟨side, call, 0, none⟩).2 with
    | .error error => pure (.error error)
    | .ok answer => pure ((read answer).elim (.error "Invalid answer") .ok)

/-- `api`, on the side of the page. -/
def api {Value : Type} (fate : Fate) (call : Call Digest) (read : Answer Digest → Option Value) :
    PageScript hashes roles source Value := do
  match ← request hashes roles source fate source call read with
  | .error error => raise error
  | .ok value => pure value

/-- `artifactRetry`, on the other side; the error of the attempt before. -/
def artifactRetry {Value : Type} (fates : ℕ → Fate) (call : Call Digest) (read : Answer Digest → Option Value) :
    List ℕ → String → PageScript hashes roles source Value
  | [], error => raise error
  | attempt :: rest, _ => do
      match ← request hashes roles source (fates attempt) source.other call read with
      | .error error => artifactRetry fates call read rest error
      | .ok value => pure value

/-- The attempts of `artifactRetry`. -/
def attempts : List ℕ := [0, 1, 2]

def Answer.next? : Answer Digest → Option (Option (Manifest Digest))
  | .next value => some value
  | _ => none

def Answer.chunk? : Answer Digest → Option (Chunk Digest)
  | .chunk value => some value
  | _ => none

def Answer.progress? : Answer Digest → Option (Progress Digest)
  | .progress value => some value
  | _ => none

def Answer.stored? : Answer Digest → Option (Stored Digest)
  | .stored value => some value
  | _ => none

def Answer.committed? : Answer Digest → Option (Receipt Digest)
  | .committed receipt => some receipt
  | _ => none

def Answer.acknowledged? : Answer Digest → Option (Receipt Digest)
  | .acknowledged receipt => some receipt
  | _ => none

def sendChunks (fates : Fates) (manifest : Manifest Digest) : List ℕ → PageScript hashes roles source Unit
  | [] => pure ()
  | index :: rest => do
      let chunk ← api hashes roles source (fates (.read index) 0) (.chunk manifest.id index) chunk?
      if chunk.id ≠ manifest.id ∨ chunk.index ≠ index then raise "Artifact read changed identity"
      else
        let receipt ← artifactRetry hashes roles source (fates (.chunk index)) (.receiveChunk chunk) stored?
          attempts ""
        if receipt.id ≠ manifest.id ∨ receipt.index ≠ index ∨ receipt.sha256 ≠ chunk.sha256 ∨
            receipt.durable ≠ true then raise "Artifact chunk receipt differs"
        else sendChunks fates manifest rest

/-- A round of `artifactPump`; the artifact that it has delivered. -/
def artifactPump (fates : Fates) : PageScript hashes roles source (Option (Manifest Digest)) := do
  match ← api hashes roles source (fates .next 0) .next next? with
  | none => pure none
  | some manifest =>
    if manifest.chunkBytes ≠ chunkBytes ∨ manifest.bytes ≤ 0 ∨ maxBytes < manifest.bytes then
      raise "Invalid outgoing artifact manifest"
    else
      let started ← artifactRetry hashes roles source (fates .start) (.start manifest) progress? attempts ""
      if started.id ≠ manifest.id ∨ manifest.count < started.nextIndex then
        raise "Invalid durable artifact progress"
      else
        sendChunks hashes roles source fates manifest
          (List.range' started.nextIndex (manifest.count - started.nextIndex))
        let receipt ← artifactRetry hashes roles source (fates .commit) (.commit manifest.id) committed?
          attempts ""
        if receipt.id ≠ manifest.id ∨ receipt.sha256 ≠ manifest.sha256 ∨ receipt.bytes ≠ manifest.bytes ∨
            receipt.durable ≠ true then raise "Artifact final durable receipt differs"
        else
          let _ ← api hashes roles source (fates .acknowledge 0) (.acknowledge receipt) acknowledged?
          pure (some manifest)

/-- The queues behind a round, also one that fails. -/
def pumpRound (fates : Fates) (state : Exchange Digest) : Exchange Digest :=
  (deliveries hashes roles source).replay state ((artifactPump hashes roles source fates).run state).1

/-! ### What a delivery keeps -/

/-- Both queues are sound, what is received of a published artifact is a part of its transfer, and a delivery
is recorded for what is committed. -/
structure Ready (state : Exchange Digest) : Prop where
  sound : ∀ side, (state.queues side).Sound hashes
  parts : ∀ id published entry, (state.queues source).outgoing.get? id = some published →
    (state.queues source.other).incoming.get? id = some entry → Transfers entry published
  delivered : ∀ id published, (state.queues source).outgoing.get? id = some published →
    ∀ file, published.delivery = some file → file = .whole (receiptOf published.manifest) ∧
      ∃ received, (state.queues source.other).incoming.get? id = some received ∧
        received.receipt = some (.whole (receiptOf published.manifest))

section Keeps

variable {hashes} {roles} {source} {state after : Exchange Digest} {action : Action Digest} {id : Digest}

theorem delivers_clean (delivers : Delivers source state action) : clean hashes roles state action := by
  intro count mem
  rw [delivers.1] at mem
  cases mem

theorem delivers_cases (hashes : Hashes Digest) (roles : Side → Option Side) (delivers : Delivers source state action) :
    ∃ after, Change hashes (roles action.side) (state.queues action.side) True action.call after ∧
      (state.act hashes roles action).queues = Function.update state.queues action.side after := by
  obtain ⟨after, change, acts, -⟩ := act_cases hashes roles state action
  have settled : clean hashes roles state action = True := eq_true (delivers_clean delivers)
  rw [settled] at change
  exact ⟨after, change, acts⟩

section

variable {role : Option Side} {queue after : Queue Digest} {call : Call Digest}
  (change : Change hashes role queue True call after)
include change

/-- What a call other than `publish` makes of a published directory: it may record its delivery. -/
theorem Change.unpublished (other : ∀ kind key pinned copied, call ≠ .publish kind key pinned copied)
    {later : Outgoing Digest} (found : after.outgoing.get? id = some later) :
    ∃ before, queue.outgoing.get? id = some before ∧
      (later = before ∨ ∃ receipt, call = .acknowledge receipt ∧ receipt.id = id ∧ before.delivery = none ∧
        receipt = receiptOf before.manifest ∧ later = { before with delivery := some (.whole receipt) }) := by
  cases change with
  | published => exact absurd rfl (other _ _ _ _)
  | rest | started | stored | rebuilt | replaced | committed => exact ⟨later, found, Or.inl rfl⟩
  | @delivered receipt entry file there pending bound known whole =>
    obtain ⟨before, earlier, same⟩ := get?_modify_some.mp found
    refine ⟨before, earlier, ?_⟩
    split_ifs at same with here
    · subst here
      obtain rfl := Option.mem_unique there earlier
      obtain rfl : file = .whole receipt := known.resolve_left (whole trivial)
      exact Or.inr ⟨receipt, rfl, rfl, pending, bound, same⟩
    · exact Or.inl same

/-- What a call of a delivery makes of a received directory of a published artifact. -/
theorem Change.parts {published : Outgoing Digest}
    (starts : ∀ manifest, call = .start manifest → manifest.id = id → manifest = published.manifest)
    (sends : ∀ value, call = .receiveChunk value → value.id = id → value.data = slice chunkBytes
      published.blob value.index.toNat)
    (part : ∀ entry, queue.incoming.get? id = some entry → Transfers entry published)
    {entry : Incoming Digest} (found : after.incoming.get? id = some entry) :
    Transfers entry published := by
  -- A received directory that is changed under an id.
  have received : ∀ {other : Digest} {change : Incoming Digest → Incoming Digest},
      (queue.receiving other change).incoming.get? id = some entry →
      (∀ before, other = id → queue.incoming.get? id = some before → Transfers before published →
        Transfers (change before) published) → Transfers entry published := by
    intro other change there transfers
    obtain ⟨before, earlier, same⟩ := get?_modify_some.mp there
    split_ifs at same with here
    · rw [same]
      exact transfers before here.symm earlier (part before earlier)
    · rw [same]
      exact part before earlier
  cases change with
  | rest | published | delivered => exact part entry found
  | @started manifest temporaries valid fits agrees room absent =>
    rcases push_cases found with ⟨here, rfl⟩ | ⟨-, found⟩
    · exact ⟨starts manifest rfl here.symm, ⟨0, Nat.zero_le _, fun _ => rfl⟩, fun wrong => (nomatch wrong)⟩
    · exact part entry found
  | @stored value before written there named inside order free part' whole =>
    refine received found fun entry here earlier transfers => ?_
    subst here
    obtain rfl := Option.mem_unique there earlier
    rw [whole trivial, sends value rfl rfl]
    refine transfers.push (order.imp (fun first => by omega) fun before => before) free
      ((lt_sliceCount_iff (by decide)).mpr ?_)
    have below : ((value.index.toNat * chunkBytes : ℕ) : ℤ) < before.manifest.bytes := by
      rw [Nat.cast_mul, Int.toNat_of_nonneg named]
      exact inside
    omega
  | rebuilt | replaced =>
    exact received found fun entry _ _ transfers => ⟨transfers.manifest, transfers.chunks, transfers.readable⟩
  | committed file there pending joined pins known whole =>
    refine received found fun entry _ _ transfers => ⟨transfers.manifest, transfers.chunks, fun torn => ?_⟩
    exact whole trivial (some.inj torn)

end

theorem delivers_outgoing (hashes : Hashes Digest) (roles : Side → Option Side) (delivers : Delivers source state action)
    {later : Outgoing Digest} (found : ((state.act hashes roles action).queues source).outgoing.get? id = some later) :
    ∃ earlier, (state.queues source).outgoing.get? id = some earlier ∧
      (later = earlier ∨ ∃ receipt, action.call = .acknowledge receipt ∧ action.side = source ∧ receipt.id = id ∧
        receipt = receiptOf earlier.manifest ∧ later = { earlier with delivery := some (.whole receipt) }) := by
  obtain ⟨after, change, acts⟩ := delivers_cases hashes roles delivers
  obtain ⟨here, same⟩ | ⟨-, same⟩ := act_queue after acts source
  · rw [same] at found
    rw [here]
    have unpublished : ∀ kind key pinned copied, action.call ≠ .publish kind key pinned copied := by
      intro kind key pinned copied published
      have allowed := delivers.2
      rw [published] at allowed
      exact allowed here.symm
    obtain ⟨earlier, there, kept⟩ := change.unpublished unpublished found
    refine ⟨earlier, there, kept.imp (fun same => same) ?_⟩
    rintro ⟨receipt, called, named, -, bound, written⟩
    exact ⟨receipt, called, rfl, named, bound, written⟩
  · rw [same] at found
    exact ⟨later, found, Or.inl rfl⟩

/-- **A delivery keeps both queues ready.** -/
theorem ready_act (ready : Ready hashes source state) (delivers : Delivers source state action) :
    Ready hashes source (state.act hashes roles action) := by
  obtain ⟨after, change, acts⟩ := delivers_cases hashes roles delivers
  have grows := grows_act hashes roles state action
  refine ⟨sound_act ready.sound, fun id published entry found there => ?_, fun id published found file written => ?_⟩
  · obtain ⟨earlier, known, kept⟩ := delivers_outgoing hashes roles delivers found
    have transfers : Transfers entry earlier := by
      obtain ⟨here, same⟩ | ⟨-, same⟩ := act_queue after acts source.other
      · rw [same] at there
        rw [← here] at change
        refine change.parts (fun manifest called named => ?_) (fun value called named => ?_)
          (fun entry => ready.parts id earlier entry known) there
        · have allowed := delivers.2
          rw [called] at allowed
          obtain ⟨entry, found, same⟩ := allowed here.symm
          rw [named, known] at found
          cases found
          exact same.symm
        · have allowed := delivers.2
          rw [called] at allowed
          obtain ⟨entry, found, same⟩ := allowed here.symm
          rw [named, known] at found
          cases found
          exact same
      · rw [same] at there
        exact ready.parts id earlier entry known there
    rcases kept with rfl | ⟨receipt, -, -, -, -, rfl⟩
    · exact transfers
    · exact ⟨transfers.manifest, transfers.chunks, transfers.readable⟩
  · obtain ⟨earlier, known, rfl | ⟨receipt, called, here, named, bound, rfl⟩⟩ :=
      delivers_outgoing hashes roles delivers found
    · obtain ⟨whole, received, there, stored⟩ := ready.delivered id _ known file written
      obtain ⟨later, there', grown⟩ := (grows source.other).incoming _ _ there
      exact ⟨whole, later, there', (grown.receipt _ stored).1⟩
    · cases written
      have allowed := delivers.2
      rw [called] at allowed
      obtain ⟨received, there, stored⟩ := allowed here
      obtain ⟨later, there', grown⟩ := (grows source.other).incoming _ _ there
      rw [named] at there'
      refine ⟨by rw [bound], later, there', ?_⟩
      rw [(grown.receipt _ stored).1, bound]

theorem ready_evolves (ready : Ready hashes source state) {later : Exchange Digest}
    (path : (deliveries hashes roles source).Evolves state later) : Ready hashes source later :=
  path.keeps (Ready hashes source) (fun _ _ legal ready => ready_act ready legal) ready

end Keeps

/-! ### Whatever is lost -/

section Lost

variable {hashes} {roles} {source} {state : Exchange Digest} {side : Side} {call : Call Digest} {Value : Type}
  {read : Answer Digest → Option Value} {pre : Exchange Digest → Prop} {good : Value → Exchange Digest → Prop}

/-- A call keeps what every call keeps, and its answer is good. -/
theorem request_ensures (fate : Fate)
    (legal : ∀ state, pre state → Delivers source state ⟨side, call, 0, none⟩)
    (kept : ∀ state, pre state → pre (state.act hashes roles ⟨side, call, 0, none⟩))
    (reads : ∀ state answer value, pre state → (state.serve hashes roles ⟨side, call, 0, none⟩).2 = .ok answer →
      read answer = some value → good value (state.act hashes roles ⟨side, call, 0, none⟩)) :
    Script.Ensures pre (request hashes roles source fate side call read)
      (fun outcome after => pre after ∧ ∀ value, outcome = .ok value → good value after) pre := by
  have performs : ∀ state, pre state → Script.Ensures (· = state)
      (perform ⟨side, call, 0, none⟩ : PageScript hashes roles source Unit)
      (fun _ after => after = state.act hashes roles ⟨side, call, 0, none⟩) pre := by
    intro state given
    refine Script.ensures_perform ?_ ?_
    · rintro disk rfl
      exact legal disk given
    · rintro disk rfl
      rfl
  refine Script.ensures_read fun state given => ?_
  cases fate with
  | lost error => exact ensures_done fun disk same => ⟨same ▸ given, nofun⟩
  | unanswered error =>
    exact ensures_bind _ (performs state given) fun _ =>
      ensures_done fun disk same => ⟨same ▸ kept state given, nofun⟩
  | answered =>
    refine ensures_bind _ (performs state given) fun _ => ?_
    cases served : (state.serve hashes roles ⟨side, call, 0, none⟩).2 with
    | error error => exact ensures_done fun disk same => ⟨same ▸ kept state given, nofun⟩
    | ok answer =>
      refine ensures_done fun disk same => ⟨same ▸ kept state given, fun value found => ?_⟩
      subst same
      cases known : read answer with
      | none =>
        rw [known] at found
        cases found
      | some _ =>
        rw [known] at found
        cases found
        exact reads state answer _ given served known

variable (good : Value → Exchange Digest → Prop)

theorem api_ensures (fate : Fate)
    (legal : ∀ state, pre state → Delivers source state ⟨source, call, 0, none⟩)
    (kept : ∀ state, pre state → pre (state.act hashes roles ⟨source, call, 0, none⟩))
    (reads : ∀ state answer value, pre state → (state.serve hashes roles ⟨source, call, 0, none⟩).2 = .ok answer →
      read answer = some value → good value (state.act hashes roles ⟨source, call, 0, none⟩)) :
    Script.Ensures pre (api hashes roles source fate call read)
      (fun value after => pre after ∧ good value after) pre := by
  refine ensures_bind _ (request_ensures fate legal kept reads) fun outcome => ?_
  cases outcome with
  | error error => exact ensures_raise fun _ given => given.1
  | ok value => exact ensures_done fun _ given => ⟨given.1, given.2 value rfl⟩

theorem artifactRetry_ensures (fates : ℕ → Fate)
    (legal : ∀ state, pre state → Delivers source state ⟨source.other, call, 0, none⟩)
    (kept : ∀ state, pre state → pre (state.act hashes roles ⟨source.other, call, 0, none⟩))
    (reads : ∀ state answer value, pre state →
      (state.serve hashes roles ⟨source.other, call, 0, none⟩).2 = .ok answer →
      read answer = some value → good value (state.act hashes roles ⟨source.other, call, 0, none⟩))
    (attempts : List ℕ) (error : String) :
    Script.Ensures pre (artifactRetry hashes roles source fates call read attempts error)
      (fun value after => pre after ∧ good value after) pre := by
  induction attempts generalizing error with
  | nil => exact ensures_raise fun _ => id
  | cons attempt rest known =>
    refine ensures_bind _ (request_ensures (fates attempt) legal kept reads) fun outcome => ?_
    cases outcome with
    | error error => exact (known error).given fun _ given => given.1
    | ok value => exact ensures_done fun _ given => ⟨given.1, given.2 value rfl⟩

def Announced (source : Side) (manifest : Manifest Digest) (state : Exchange Digest) : Prop :=
  ∃ entry, (state.queues source).outgoing.get? manifest.id = some entry ∧ entry.manifest = manifest

theorem announced_act {manifest : Manifest Digest} (announced : Announced source manifest state)
    (action : Action Digest) : Announced source manifest (state.act hashes roles action) := by
  obtain ⟨entry, found, same⟩ := announced
  obtain ⟨later, there, grown⟩ := (grows_act hashes roles state action source).outgoing _ _ found
  exact ⟨later, there, grown.manifest.trans same⟩

/-- Chunks are sent once the queues are ready and their manifest is published. -/
def Sending (hashes : Hashes Digest) (source : Side) (manifest : Manifest Digest) (state : Exchange Digest) : Prop :=
  Ready hashes source state ∧ Announced source manifest state

theorem sending_act {manifest : Manifest Digest} {action : Action Digest}
    (sending : Sending hashes source manifest state) (delivers : Delivers source state action) :
    Sending hashes source manifest (state.act hashes roles action) :=
  ⟨ready_act sending.1 delivers, announced_act sending.2 action⟩

def Read (source : Side) (value : Chunk Digest) (state : Exchange Digest) : Prop :=
  ∃ entry, (state.queues source).outgoing.get? value.id = some entry ∧
    value.data = slice chunkBytes entry.blob value.index.toNat

theorem read_act {value : Chunk Digest} (found : Read source value state) (action : Action Digest) :
    Read source value (state.act hashes roles action) := by
  obtain ⟨entry, there, same⟩ := found
  obtain ⟨later, there', grown⟩ := (grows_act hashes roles state action source).outgoing _ _ there
  exact ⟨later, there', by rw [grown.blob, same]⟩

def Committed (source : Side) (receipt : Receipt Digest) (state : Exchange Digest) : Prop :=
  ∃ entry, (state.queues source.other).incoming.get? receipt.id = some entry ∧
    entry.receipt = some (.whole receipt)

theorem committed_act {receipt : Receipt Digest} (committed : Committed source receipt state)
    (action : Action Digest) : Committed source receipt (state.act hashes roles action) := by
  obtain ⟨entry, found, stored⟩ := committed
  obtain ⟨later, there, grown⟩ := (grows_act hashes roles state action source.other).incoming _ _ found
  exact ⟨later, there, (grown.receipt _ stored).1⟩

theorem act_complete (state : Exchange Digest) (side : Side) (call : Call Digest) :
    (state.act hashes roles ⟨side, call, 0, none⟩).queues = Function.update state.queues side
      ((state.queues side).replay ((state.queues side).serve hashes (roles side) 0 call).1) := by
  unfold act serve
  rcases (state.queues side).serve hashes (roles side) 0 call with ⟨ops, error | answer⟩ <;> rfl

omit [DecidableEq Digest] in
/-- An answer is one of the function that is called. -/
theorem answered_map {First : Type} {outcome : Outcome Digest First} {wrap : First → Answer Digest}
    {read : Answer Digest → Option First} {answer : Answer Digest} {value : First}
    (served : (outcome.map wrap).2 = .ok answer) (found : read answer = some value)
    (reads : ∀ first, read (wrap first) = some first) : outcome.2 = .ok value := by
  obtain ⟨ops, result⟩ := outcome
  cases result with
  | error error => cases served
  | ok first =>
    obtain rfl := Except.ok.inj served
    exact congrArg Except.ok (some.inj ((reads first).symm.trans found))

theorem sendChunks_ensures (fates : Fates) (manifest : Manifest Digest) (indices : List ℕ) :
    Script.Ensures (Sending hashes source manifest)
      (sendChunks hashes roles source fates manifest indices)
      (fun _ => Sending hashes source manifest)
      (Sending hashes source manifest) := by
  induction indices with
  | nil => exact ensures_done fun _ => id
  | cons index rest known =>
    have reads : ∀ state, Sending hashes source manifest state →
        Delivers source state ⟨source, .chunk manifest.id index, 0, none⟩ := fun _ _ => ⟨rfl, trivial⟩
    refine ensures_bind (fun chunk state => Sending hashes source manifest state ∧
      Read source chunk state) ?_ fun chunk => ?_
    · refine api_ensures _ _ reads (fun state given => sending_act given (reads state given))
        fun state answer value given served found => ?_
      have answered : ((state.queues source).chunk hashes manifest.id index).2 = .ok value :=
        answered_map served found fun _ => rfl
      exact read_act (chunk_answered answered) _
    refine ensures_ite (fun _ => ensures_raise fun _ given => given.1) fun _ => ?_
    have sends : ∀ state, Sending hashes source manifest state ∧ Read source chunk state →
        Delivers source state ⟨source.other, .receiveChunk chunk, 0, none⟩ :=
      fun _ given => ⟨rfl, fun _ => given.2⟩
    refine ensures_bind (fun _ => Sending hashes source manifest) ?_
      fun receipt => ensures_ite (fun _ => ensures_raise fun _ => id) fun _ => known
    refine (artifactRetry_ensures (fun _ _ => True) _ sends
      (fun state given => ⟨sending_act given.1 (sends state given), read_act given.2 _⟩)
      (fun _ _ _ _ _ _ => trivial) attempts "").weaken (fun _ => id) (fun _ _ given => given.1.1) fun _ given => given.1

/-- **Whatever is lost**, the calls of a round are calls of a delivery, and keep the queues ready. -/
theorem artifactPump_ensures (fates : Fates) :
    Script.Ensures (Ready hashes source) (artifactPump hashes roles source fates) (fun _ => Ready hashes source)
      (Ready hashes source) := by
  have next : ∀ state, Ready hashes source state → Delivers source state ⟨source, .next, 0, none⟩ :=
    fun _ _ => ⟨rfl, trivial⟩
  refine ensures_bind (fun found state => Ready hashes source state ∧
    ∀ manifest ∈ found, Announced source manifest state) ?_ fun found => ?_
  · refine api_ensures _ _ next (fun state given => ready_act given (next state given))
      fun state answer value given served found manifest there => ?_
    have answered : ((state.queues source).next hashes).2 = .ok value :=
      answered_map served found fun _ => rfl
    cases there
    exact announced_act (next_answered (given.sound source) answered) _
  cases found with
  | none => exact ensures_done fun _ given => given.1
  | some manifest =>
    refine ensures_ite (fun _ => ensures_raise fun _ given => given.1) fun _ => ?_
    have starts : ∀ state, Sending hashes source manifest state →
        Delivers source state ⟨source.other, .start manifest, 0, none⟩ := fun _ given => ⟨rfl, fun _ => given.2⟩
    refine ensures_bind (fun _ => Sending hashes source manifest) ?_
      fun started => ?_
    · refine (artifactRetry_ensures (fun _ _ => True) _ starts
        (fun state given => sending_act given (starts state given)) (fun _ _ _ _ _ _ => trivial) attempts "").weaken
        (fun _ given => ⟨given.1, given.2 manifest rfl⟩) (fun _ _ given => given.1) fun _ given => given.1
    refine ensures_ite (fun _ => ensures_raise fun _ given => given.1) fun _ => ?_
    refine ensures_bind (fun _ => Sending hashes source manifest)
      ((sendChunks_ensures fates manifest _).weaken (fun _ => id) (fun _ _ => id) fun _ given => given.1) fun _ => ?_
    have commits : ∀ state, Ready hashes source state →
        Delivers source state ⟨source.other, .commit manifest.id, 0, none⟩ := fun _ _ => ⟨rfl, trivial⟩
    refine ensures_bind (fun receipt state => Ready hashes source state ∧ Committed source receipt state) ?_
      fun receipt => ?_
    · refine (artifactRetry_ensures _ _ commits (fun state given => ready_act given (commits state given))
        (fun state answer value given served found => ?_) attempts "").given fun _ given => given.1
      have answered : ((state.queues source.other).commit hashes manifest.id).2 = .ok value :=
        answered_map served found fun _ => rfl
      obtain ⟨entry, there, -, stored, same⟩ := commit_recorded answered
      have named : value.id = manifest.id := by rw [same]; rfl
      refine ⟨entry, ?_, stored⟩
      rw [act_complete, Function.update_self, named]
      exact there
    refine ensures_ite (fun _ => ensures_raise fun _ given => given.1) fun _ => ?_
    have records : ∀ state, Ready hashes source state ∧ Committed source receipt state →
        Delivers source state ⟨source, .acknowledge receipt, 0, none⟩ := fun _ given => ⟨rfl, fun _ => given.2⟩
    refine ensures_bind (fun _ state => Ready hashes source state) ?_ fun _ =>
      ensures_done fun _ => id
    exact (api_ensures (fun _ _ => True) _ records
      (fun state given => ⟨ready_act given.1 (records state given), committed_act given.2 _⟩)
      (fun _ _ _ _ _ _ => trivial)).weaken (fun _ => id) (fun _ _ given => given.1.1) fun _ given => given.1

theorem pumpRound_evolves (roles : Side → Option Side) (fates : Fates) (ready : Ready hashes source state) :
    (deliveries hashes roles source).Evolves state (pumpRound hashes roles source fates state) :=
  Storage.evolves_replay ((artifactPump_ensures fates).legal ready)

end Lost

end TinyDSV41.Artifacts
