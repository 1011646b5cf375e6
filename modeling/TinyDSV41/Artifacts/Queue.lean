/-
**The artifact queue of a relay.**

A queue keeps what its side publishes under `outgoing` and what it receives under `incoming`, one
directory for each manifest. Every call reads the directories under a lock and then makes a list of file
operations; a process that is stopped inside of a call has made the first few.

* `validateManifest` — the checks of a manifest.
* `Queue.serve` — the operations and the answer of a call.
* `serve_change` — what a call makes of a queue, also one that is stopped.

Bytes are compared by their digests, which are a parameter. The texts of a chunk stand for the bytes that
they decode to, and a torn file of a manifest or a receipt cannot be read.
-/

import TinyDSV41.Lib.Journal
import TinyDSV41.Lib.OrderedTable
import TinyDSV41.Lib.Slices
import Mathlib.Algebra.Order.Ring.Int

namespace TinyDSV41.Artifacts

open List Lib OrderedTable

/-! ### Manifests -/

abbrev Bytes := List UInt8

/-- `CHUNK_BYTES` -/
def chunkBytes : ℕ := 128 * 1024

/-- `MAX_BYTES` -/
def maxBytes : ℕ := 512 * 1024 ^ 2

/-- `MAX_ARTIFACTS` -/
def maxArtifacts : ℕ := 1024

/-- `MAX_QUEUE_BYTES` -/
def maxQueueBytes : ℕ := 4 * 1024 ^ 3

/-- `KINDS` -/
inductive Kind
  | policyLease
  | sealedGroup
  | publicCapsule
deriving DecidableEq

inductive Side
  | cpu
  | gpu
deriving DecidableEq

def Side.other : Side → Side
  | .cpu => .gpu
  | .gpu => .cpu

structure Body (Digest : Type) where
  schemaVersion : ℤ
  kind : Kind
  key : String
  bytes : ℤ
  sha256 : Digest
  chunkBytes : ℤ
deriving DecidableEq

structure Manifest (Digest : Type) extends Body Digest where
  id : Digest
deriving DecidableEq

/-- The digests of contents and of bodies of manifests, and the order of their texts. -/
structure Hashes (Digest : Type) where
  content : Bytes → Digest
  identity : Body Digest → Digest
  before : Digest → Digest → Bool

/-- No two contents and no two bodies have the same digest. -/
structure Hashes.CollisionFree {Digest : Type} (hashes : Hashes Digest) : Prop where
  content : Function.Injective hashes.content
  identity : Function.Injective hashes.identity

/-- `KEY` -/
def isKey (key : String) : Bool :=
  match key.toList with
  | [] => false
  | first :: rest => first.isAlphanum && decide (rest.length ≤ 99) &&
      rest.all fun letter => letter.isAlphanum || letter == '_' || letter == '.' || letter == '-'

variable {Digest : Type} [DecidableEq Digest] (hashes : Hashes Digest)

/-- `validate_manifest` -/
def validateManifest (value : Manifest Digest) : Except String Unit :=
  if value.schemaVersion ≠ 1 ∨ isKey value.key = false ∨
      ¬ (0 < value.bytes ∧ value.bytes ≤ maxBytes) ∨ value.chunkBytes ≠ chunkBytes then
    .error "invalid bounded artifact manifest"
  else if hashes.identity value.toBody ≠ value.id then
    .error "artifact identity does not bind metadata and content"
  else if (value.kind = .policyLease ∨ value.kind = .publicCapsule) ∧ 1024 ^ 2 < value.bytes then
    .error "policy/public capsule exceeds 1 MiB"
  else .ok ()

/-- The manifest that `publish` makes of a content. -/
def manifestOf (kind : Kind) (key : String) (content : Bytes) : Manifest Digest :=
  let body := ⟨1, kind, key, content.length, hashes.content content, chunkBytes⟩
  ⟨body, hashes.identity body⟩

/-- `pin` of a content agrees with a manifest. -/
def Pins (manifest : Manifest Digest) (content : Bytes) : Prop :=
  (content.length : ℤ) = manifest.bytes ∧ hashes.content content = manifest.sha256

instance decidablePins (manifest : Manifest Digest) (content : Bytes) :
    Decidable (Pins hashes manifest content) :=
  inferInstanceAs (Decidable (_ ∧ _))

/-! ### Directories -/

/-- `receipt.json` and `delivery.json` -/
structure Receipt (Digest : Type) where
  schemaVersion : ℤ
  id : Digest
  bytes : ℤ
  sha256 : Digest
  durable : Bool
deriving DecidableEq

def receiptOf (manifest : Manifest Digest) : Receipt Digest :=
  ⟨1, manifest.id, manifest.bytes, manifest.sha256, true⟩

/-- The receipt that `commit` writes under an id. -/
def commitReceipt (id : Digest) (manifest : Manifest Digest) : Receipt Digest :=
  ⟨1, id, manifest.bytes, manifest.sha256, true⟩

/-- A directory under `incoming`. -/
structure Incoming (Digest : Type) where
  manifest : Manifest Digest
  chunks : OrderedTable ℕ Bytes
  blobPartial : Option Bytes
  blob : Option Bytes
  receipt : Option (File (Receipt Digest))

/-- A directory under `outgoing`. -/
structure Outgoing (Digest : Type) where
  manifest : Manifest Digest
  blob : Bytes
  delivery : Option (File (Receipt Digest))

/-- A directory of `mkdtemp`. -/
structure Temporary (Digest : Type) where
  blob : Option Bytes
  manifest : Option (File (Manifest Digest))

structure Queue (Digest : Type) where
  outgoing : OrderedTable Digest (Outgoing Digest)
  incoming : OrderedTable Digest (Incoming Digest)
  temporaries : List (Temporary Digest)

def Queue.empty : Queue Digest := ⟨∅, ∅, []⟩

def Manifest.isFor (manifest : Manifest Digest) (kind : Kind) (key : String) : Bool :=
  decide (manifest.kind = kind ∧ manifest.key = key)

def Queue.manifests (queue : Queue Digest) : List (Manifest Digest) :=
  queue.incoming.values.map Incoming.manifest ++ queue.outgoing.values.map Outgoing.manifest

/-- `bounded` -/
def Queue.bounded (queue : Queue Digest) (extra : ℤ) : Except String Unit := do
  queue.manifests.forM (validateManifest hashes)
  if maxArtifacts ≤ queue.manifests.length ∨
      maxQueueBytes < (queue.manifests.map fun manifest => manifest.bytes).sum + extra then
    throw "artifact evidence storage bound reached; no deletion or replay"

def Incoming.nextIndex (entry : Incoming Digest) : ℕ :=
  ((range entry.chunks.length).takeWhile fun index => (entry.chunks.get? index).isSome).length

def Manifest.count (manifest : Manifest Digest) : ℕ := sliceCount chunkBytes manifest.bytes.toNat

/-- The bytes of the chunk files up to the first one that is missing, and whether none is. -/
def Incoming.joined (entry : Incoming Digest) : List ℕ → Bytes × Bool
  | [] => ([], true)
  | index :: rest =>
    match entry.chunks.get? index with
    | none => ([], false)
    | some raw => (raw ++ (Incoming.joined entry rest).1, (Incoming.joined entry rest).2)

/-! ### File operations -/

/-- What a call does to the files. Opening a chunk creates its file and writes some of its bytes. -/
inductive Op (Digest : Type)
  | makeTemporary
  | writeBlob (bytes : Bytes)
  | writeManifest (file : File (Manifest Digest))
  | removeTemporary
  | publishEntry (id : Digest)
  | receiveEntry (id : Digest)
  | openChunk (id : Digest) (index : ℕ) (written : Bytes)
  | fillChunk (id : Digest) (index : ℕ) (raw : Bytes)
  | removePartial (id : Digest)
  | writePartial (id : Digest) (bytes : Bytes)
  | replaceBlob (id : Digest)
  | writeReceipt (id : Digest) (file : File (Receipt Digest))
  | writeDelivery (id : Digest) (file : File (Receipt Digest))

/-- The operation creates a chunk, a receipt or a delivery file, and does not fill it. -/
def Op.opens : Op Digest → Bool
  | .openChunk _ _ _ | .writeReceipt _ .torn | .writeDelivery _ .torn => true
  | _ => false

/-- A change inside of a directory under `incoming`. -/
def Queue.receiving (queue : Queue Digest) (id : Digest)
    (change : Incoming Digest → Incoming Digest) : Queue Digest :=
  { queue with incoming := queue.incoming.modify id change }

/-- A change inside of the newest temporary directory. -/
def Queue.preparing (queue : Queue Digest) (change : Temporary Digest → Temporary Digest) :
    Queue Digest :=
  match queue.temporaries with
  | [] => queue
  | newest :: rest => { queue with temporaries := change newest :: rest }

def Queue.apply (queue : Queue Digest) : Op Digest → Queue Digest
  | .makeTemporary => { queue with temporaries := ⟨none, none⟩ :: queue.temporaries }
  | .writeBlob bytes => queue.preparing fun newest => { newest with blob := some bytes }
  | .writeManifest file => queue.preparing fun newest => { newest with manifest := some file }
  | .removeTemporary => { queue with temporaries := queue.temporaries.tail }
  | .publishEntry id =>
    match queue.temporaries with
    | ⟨some blob, some (.whole manifest)⟩ :: rest =>
      { queue with
        temporaries := rest
        outgoing := queue.outgoing.push id ⟨manifest, blob, none⟩ }
    | _ => queue
  | .receiveEntry id =>
    match queue.temporaries with
    | ⟨none, some (.whole manifest)⟩ :: rest =>
      { queue with
        temporaries := rest
        incoming := queue.incoming.push id ⟨manifest, ∅, none, none, none⟩ }
    | _ => queue
  | .openChunk id index bytes | .fillChunk id index bytes =>
    queue.receiving id fun entry => { entry with chunks := entry.chunks.push index bytes }
  | .removePartial id => queue.receiving id fun entry => { entry with blobPartial := none }
  | .writePartial id bytes => queue.receiving id fun entry => { entry with blobPartial := some bytes }
  | .replaceBlob id =>
    queue.receiving id fun entry => { entry with blob := entry.blobPartial, blobPartial := none }
  | .writeReceipt id file => queue.receiving id fun entry => { entry with receipt := some file }
  | .writeDelivery id file =>
    { queue with
      outgoing := queue.outgoing.modify id fun entry => { entry with delivery := some file } }

def Queue.replay (queue : Queue Digest) (ops : List (Op Digest)) : Queue Digest :=
  ops.foldl Queue.apply queue

/-! ### Calls -/

structure Chunk (Digest : Type) where
  id : Digest
  index : ℤ
  data : Bytes
  sha256 : Digest
deriving DecidableEq

/-- The answer of `start`. -/
structure Progress (Digest : Type) where
  id : Digest
  nextIndex : ℕ
  committed : Bool
deriving DecidableEq

/-- The answer of `receive_chunk`. -/
structure Stored (Digest : Type) where
  id : Digest
  index : ℤ
  sha256 : Digest
  durable : Bool
deriving DecidableEq

/-- The operations of a call, and the answer or the error that it ends with. -/
abbrev Outcome (Digest Answer : Type) := List (Op Digest) × Except String Answer

def raises {Answer : Type} (error : String) : Outcome Digest Answer := ([], .error error)

def answers {Answer : Type} (answer : Answer) : Outcome Digest Answer := ([], .ok answer)

/-- `publish`: the source has one content when it is pinned, and one when it is copied. -/
def Queue.publish (queue : Queue Digest) (kind : Kind) (key : String) (pinned copied : Bytes) :
    Outcome Digest (Manifest Digest) :=
  let manifest := manifestOf hashes kind key pinned
  match validateManifest hashes manifest with
  | .error error => raises error
  | .ok () =>
    match queue.outgoing.values.find? fun old => old.manifest.isFor kind key with
    | some old =>
      if old.manifest ≠ manifest then
        raises "artifact key already binds different immutable content"
      else answers manifest
    | none =>
      match queue.bounded hashes manifest.bytes with
      | .error error => raises error
      | .ok () =>
        let copy := [.makeTemporary, .writeBlob [], .writeBlob copied]
        if ¬ Pins hashes manifest copied then
          (copy ++ [.removeTemporary], .error "source changed before durable artifact publication")
        else
          let prepare := copy ++ [.writeManifest .torn, .writeManifest (.whole manifest)]
          if (queue.outgoing.get? manifest.id).isSome then
            (prepare ++ [.removeTemporary], .error "Directory not empty")
          else (prepare ++ [.publishEntry manifest.id], .ok manifest)

/-- `next` -/
def Queue.next (queue : Queue Digest) : Outcome Digest (Option (Manifest Digest)) :=
  let names := (queue.outgoing.items.map Prod.fst).mergeSort hashes.before
  match (names.filterMap queue.outgoing.get?).find? fun entry => entry.delivery.isNone with
  | none => answers none
  | some entry =>
    match validateManifest hashes entry.manifest with
    | .error error => raises error
    | .ok () => answers (some entry.manifest)

/-- `chunk` -/
def Queue.chunk (queue : Queue Digest) (id : Digest) (index : ℤ) : Outcome Digest (Chunk Digest) :=
  match queue.outgoing.get? id with
  | none => raises "No such file or directory"
  | some entry =>
    match validateManifest hashes entry.manifest with
    | .error error => raises error
    | .ok () =>
      if ¬ (0 ≤ index ∧ index < entry.manifest.count) then raises "invalid artifact chunk index"
      else
        let raw := slice chunkBytes entry.blob index.toNat
        answers ⟨id, index, raw, hashes.content raw⟩

def Fits (role : Option Side) (kind : Kind) : Prop :=
  ¬ (role = some .cpu ∧ kind ≠ .policyLease ∨ role = some .gpu ∧ kind = .policyLease)

instance decidableFits (role : Option Side) (kind : Kind) : Decidable (Fits role kind) :=
  inferInstanceAs (Decidable (¬ _))

/-- `start` -/
def Queue.start (queue : Queue Digest) (role : Option Side) (manifest : Manifest Digest) :
    Outcome Digest (Progress Digest) :=
  match validateManifest hashes manifest with
  | .error error => raises error
  | .ok () =>
    if ¬ Fits role manifest.kind then
      raises "artifact kind is not admitted for this relay role"
    else if queue.incoming.values.any fun old =>
        old.manifest.isFor manifest.kind manifest.key && decide (old.manifest ≠ manifest) then
      raises "received artifact key already has different content"
    else match queue.incoming.get? manifest.id with
      | none =>
        match queue.bounded hashes manifest.bytes with
        | .error error => raises error
        | .ok () =>
          ([.makeTemporary, .writeManifest .torn, .writeManifest (.whole manifest),
            .receiveEntry manifest.id], .ok ⟨manifest.id, 0, false⟩)
      | some entry =>
        if entry.manifest ≠ manifest then raises "artifact manifest conflict"
        else answers ⟨manifest.id, entry.nextIndex, entry.receipt.isSome⟩

/-- `receive_chunk`; a number of bytes of the chunk is written before the rest. -/
def Queue.receiveChunk (queue : Queue Digest) (value : Chunk Digest) (cut : ℕ) :
    Outcome Digest (Stored Digest) :=
  if (chunkBytes + 2) / 3 * 4 < (value.data.length + 2) / 3 * 4 then
    raises "artifact chunk exceeds bound"
  else if hashes.content value.data ≠ value.sha256 then raises "artifact chunk hash mismatch"
  else match queue.incoming.get? value.id with
    | none => raises "No such file or directory"
    | some entry =>
      match validateManifest hashes entry.manifest with
      | .error error => raises error
      | .ok () =>
        let remaining := entry.manifest.bytes - value.index * chunkBytes
        if value.index < 0 ∨ remaining ≤ 0 ∨ (value.data.length : ℤ) ≠ min (chunkBytes : ℤ) remaining then
          raises "artifact chunk length or index differs from manifest"
        else if value.index ≠ 0 ∧ (entry.chunks.get? (value.index.toNat - 1)).isNone then
          raises "artifact chunk is out of order"
        else
          let stored := ⟨value.id, value.index, value.sha256, true⟩
          match entry.chunks.get? value.index.toNat with
          | some raw =>
            if raw ≠ value.data then raises "artifact chunk conflicts with durable bytes"
            else answers stored
          | none =>
            ([.openChunk value.id value.index.toNat (value.data.take cut),
              .fillChunk value.id value.index.toNat value.data], .ok stored)

/-- `commit` creates the partial blob; one that is there was left by a stop. -/
def Incoming.clearOps (entry : Incoming Digest) (id : Digest) : List (Op Digest) :=
  (if entry.blobPartial.isSome then [.removePartial id] else []) ++ [.writePartial id []]

/-- `commit` replaces the blob and writes the receipt. -/
def replaceOps (id : Digest) (receipt : Receipt Digest) : List (Op Digest) :=
  [.replaceBlob id, .writeReceipt id .torn, .writeReceipt id (.whole receipt)]

/-- `commit` -/
def Queue.commit (queue : Queue Digest) (id : Digest) : Outcome Digest (Receipt Digest) :=
  match queue.incoming.get? id with
  | none => raises "No such file or directory"
  | some entry =>
    match validateManifest hashes entry.manifest with
    | .error error => raises error
    | .ok () =>
      let receipt := commitReceipt id entry.manifest
      match entry.receipt with
      | some .torn => raises "Expecting value"
      | some (.whole found) =>
        if found ≠ receipt then raises "artifact commit conflicts" else answers receipt
      | none =>
        let joined := entry.joined (range entry.manifest.count)
        let rebuild := entry.clearOps id ++ [.writePartial id joined.1]
        if joined.2 = false then (rebuild, .error "No such file or directory")
        else if ¬ Pins hashes entry.manifest joined.1 then
          (rebuild, .error "artifact final hash mismatch")
        else (rebuild ++ replaceOps id receipt, .ok receipt)

/-- `acknowledge` -/
def Queue.acknowledge (queue : Queue Digest) (receipt : Receipt Digest) :
    Outcome Digest (Receipt Digest) :=
  match queue.outgoing.get? receipt.id with
  | none => raises "No such file or directory"
  | some entry =>
    match validateManifest hashes entry.manifest with
    | .error error => raises error
    | .ok () =>
      if receipt ≠ receiptOf entry.manifest then
        raises "artifact delivery acknowledgement is not content-bound"
      else match entry.delivery with
        | none =>
          ([.writeDelivery receipt.id .torn, .writeDelivery receipt.id (.whole receipt)], .ok receipt)
        | some .torn => raises "Expecting value"
        | some (.whole found) =>
          if found ≠ receipt then raises "artifact delivery acknowledgement changed"
          else answers receipt

/-- A call of the publisher or of the receiver. -/
inductive Call (Digest : Type)
  | publish (kind : Kind) (key : String) (pinned copied : Bytes)
  | next
  | chunk (id : Digest) (index : ℤ)
  | start (manifest : Manifest Digest)
  | receiveChunk (value : Chunk Digest)
  | commit (id : Digest)
  | acknowledge (receipt : Receipt Digest)

inductive Answer (Digest : Type)
  | published (manifest : Manifest Digest)
  | next (manifest : Option (Manifest Digest))
  | chunk (value : Chunk Digest)
  | progress (progress : Progress Digest)
  | stored (stored : Stored Digest)
  | committed (receipt : Receipt Digest)
  | acknowledged (receipt : Receipt Digest)
deriving DecidableEq

def Outcome.map {First Second : Type} (outcome : Outcome Digest First) (wrap : First → Second) :
    Outcome Digest Second :=
  (outcome.1, outcome.2.map wrap)

def Queue.serve (queue : Queue Digest) (role : Option Side) (cut : ℕ) :
    Call Digest → Outcome Digest (Answer Digest)
  | .publish kind key pinned copied =>
    (queue.publish hashes kind key pinned copied).map Answer.published
  | .next => (queue.next hashes).map Answer.next
  | .chunk id index => (queue.chunk hashes id index).map Answer.chunk
  | .start manifest => (queue.start hashes role manifest).map Answer.progress
  | .receiveChunk value => (queue.receiveChunk hashes value cut).map Answer.stored
  | .commit id => (queue.commit hashes id).map Answer.committed
  | .acknowledge receipt => (queue.acknowledge hashes receipt).map Answer.acknowledged

/-! ### What a call makes of a queue -/

section Changes

variable {hashes} {role : Option Side} {queue : Queue Digest} {id : Digest} {ops : List (Op Digest)}

/-- What a call can make of a queue; a settled one leaves no file torn. -/
inductive Change (hashes : Hashes Digest) (role : Option Side) (queue : Queue Digest)
    (settled : Prop) : Call Digest → Queue Digest → Prop
  | rest (call : Call Digest) (temporaries : List (Temporary Digest)) :
      Change hashes role queue settled call { queue with temporaries := temporaries }
  | published {kind : Kind} {key : String} {pinned copied : Bytes}
      (temporaries : List (Temporary Digest))
      (valid : validateManifest hashes (manifestOf hashes kind key pinned) = .ok ())
      (fresh : ∀ entry ∈ queue.outgoing.values, entry.manifest.isFor kind key = false)
      (room : queue.bounded hashes (manifestOf hashes kind key pinned).bytes = .ok ())
      (pins : Pins hashes (manifestOf hashes kind key pinned) copied)
      (absent : queue.outgoing.get? (manifestOf hashes kind key pinned).id = none) :
      Change hashes role queue settled (.publish kind key pinned copied) { queue with
          temporaries := temporaries
          outgoing := queue.outgoing.push (manifestOf hashes kind key pinned).id
            ⟨manifestOf hashes kind key pinned, copied, none⟩ }
  | started {manifest : Manifest Digest} (temporaries : List (Temporary Digest))
      (valid : validateManifest hashes manifest = .ok ()) (fits : Fits role manifest.kind)
      (agrees : ∀ entry ∈ queue.incoming.values,
        entry.manifest.isFor manifest.kind manifest.key = true → entry.manifest = manifest)
      (room : queue.bounded hashes manifest.bytes = .ok ())
      (absent : queue.incoming.get? manifest.id = none) :
      Change hashes role queue settled (.start manifest) { queue with
          temporaries := temporaries
          incoming := queue.incoming.push manifest.id ⟨manifest, ∅, none, none, none⟩ }
  | stored {value : Chunk Digest} {entry : Incoming Digest} (written : Bytes)
      (found : queue.incoming.get? value.id = some entry)
      (named : 0 ≤ value.index)
      (inside : value.index * chunkBytes < entry.manifest.bytes)
      (order : value.index = 0 ∨ (entry.chunks.get? (value.index.toNat - 1)).isSome = true)
      (free : entry.chunks.get? value.index.toNat = none)
      (part : written <+: value.data) (whole : settled → written = value.data) :
      Change hashes role queue settled (.receiveChunk value) (queue.receiving value.id fun entry =>
          { entry with chunks := entry.chunks.push value.index.toNat written })
  | rebuilt {id : Digest} {entry : Incoming Digest} (blobPartial : Option Bytes)
      (found : queue.incoming.get? id = some entry) (pending : entry.receipt = none) :
      Change hashes role queue settled (.commit id)
        (queue.receiving id fun entry => { entry with blobPartial := blobPartial })
  | replaced {id : Digest} {entry : Incoming Digest} {content : Bytes}
      (found : queue.incoming.get? id = some entry) (pending : entry.receipt = none)
      (joined : entry.joined (range entry.manifest.count) = (content, true))
      (pins : Pins hashes entry.manifest content) :
      Change hashes role queue settled (.commit id)
        (queue.receiving id fun entry => { entry with blob := some content, blobPartial := none })
  | committed {id : Digest} {entry : Incoming Digest} {content : Bytes}
      (file : File (Receipt Digest))
      (found : queue.incoming.get? id = some entry) (pending : entry.receipt = none)
      (joined : entry.joined (range entry.manifest.count) = (content, true))
      (pins : Pins hashes entry.manifest content)
      (known : file = .torn ∨ file = .whole (commitReceipt id entry.manifest))
      (whole : settled → file ≠ .torn) :
      Change hashes role queue settled (.commit id) (queue.receiving id fun entry =>
          { entry with blob := some content, blobPartial := none, receipt := some file })
  | delivered {receipt : Receipt Digest} {entry : Outgoing Digest}
      (file : File (Receipt Digest))
      (found : queue.outgoing.get? receipt.id = some entry) (pending : entry.delivery = none)
      (bound : receipt = receiptOf entry.manifest)
      (known : file = .torn ∨ file = .whole receipt) (whole : settled → file ≠ .torn) :
      Change hashes role queue settled (.acknowledge receipt) { queue with
          outgoing := queue.outgoing.modify receipt.id fun entry =>
            { entry with delivery := some file } }

/-- The last operation before a stop leaves no file torn. -/
def Settled (ops : List (Op Digest)) (count : ℕ) : Prop :=
  ∀ op ∈ (ops.take count).getLast?, op.opens = false

instance decidableSettled (ops : List (Op Digest)) (count : ℕ) : Decidable (Settled ops count) :=
  inferInstanceAs (Decidable (∀ op ∈ (ops.take count).getLast?, op.opens = false))

variable (settled : Prop) (call : Call Digest)

theorem rest_self :
    Change hashes role queue settled call queue := Change.rest call queue.temporaries

theorem Change.mono {settled fewer : Prop} {call : Call Digest} {after : Queue Digest}
    (change : Change hashes role queue settled call after) (implied : fewer → settled) :
    Change hashes role queue fewer call after := by
  cases change with
  | rest _ temporaries => exact .rest call temporaries
  | published temporaries valid fresh room pins absent =>
    exact .published temporaries valid fresh room pins absent
  | started temporaries valid fits agrees room absent =>
    exact .started temporaries valid fits agrees room absent
  | stored written found named inside order free part whole =>
    exact .stored written found named inside order free part fun less => whole (implied less)
  | rebuilt blobPartial found pending => exact .rebuilt blobPartial found pending
  | replaced found pending joined pins => exact .replaced found pending joined pins
  | committed file found pending joined pins known whole =>
    exact .committed file found pending joined pins known fun less => whole (implied less)
  | delivered file found pending bound known whole =>
    exact .delivered file found pending bound known fun less => whole (implied less)

theorem replay_append (ops more : List (Op Digest)) :
    queue.replay (ops ++ more) = (queue.replay ops).replay more := foldl_append

theorem receiving_receiving {first second : Incoming Digest → Incoming Digest} :
    (queue.receiving id first).receiving id second
      = queue.receiving id fun entry => second (first entry) := by
  unfold Queue.receiving
  rw [modify_modify]

def Op.prepares : Op Digest → Bool
  | .makeTemporary | .writeBlob _ | .writeManifest _ | .removeTemporary => true
  | _ => false

theorem replay_prepares (queue : Queue Digest) (prepares : ∀ op ∈ ops, op.prepares = true) :
    ∃ temporaries, queue.replay ops = { queue with temporaries := temporaries } := by
  induction ops generalizing queue with
  | nil => exact ⟨queue.temporaries, rfl⟩
  | cons op rest known =>
    obtain ⟨here, later⟩ := forall_mem_cons.mp prepares
    obtain ⟨temporaries, same⟩ := known (queue.apply op) later
    obtain ⟨middle, first⟩ : ∃ middle, queue.apply op = { queue with temporaries := middle } := by
      cases op with
      | makeTemporary | removeTemporary => exact ⟨_, rfl⟩
      | writeBlob | writeManifest =>
        simp only [Queue.apply, Queue.preparing]
        split
        · exact ⟨queue.temporaries, rfl⟩
        · exact ⟨_, rfl⟩
      | _ => cases here
    refine ⟨temporaries, ?_⟩
    show (queue.apply op).replay rest = _
    rw [same, first]

variable (count : ℕ)

theorem change_nil :
    Change hashes role queue settled call (queue.replay (([] : List (Op Digest)).take count)) := by
  rw [take_nil]
  exact rest_self _ _

theorem change_prepares
    (prepares : ∀ op ∈ ops, op.prepares = true) :
    Change hashes role queue settled call (queue.replay (ops.take count)) := by
  obtain ⟨temporaries, same⟩ := replay_prepares queue fun op mem =>
    prepares op (mem_of_mem_take mem)
  rw [same]
  exact Change.rest _ _

omit [DecidableEq Digest] in
/-- A list of operations that is stopped has made a beginning, or all of them. -/
theorem take_append_single (ops : List (Op Digest)) (last : Op Digest) (count : ℕ) :
    (ops ++ [last]).take count = ops.take count ∨ (ops ++ [last]).take count = ops ++ [last] := by
  by_cases inside : count ≤ ops.length
  · exact Or.inl (take_append_of_le_length inside)
  · refine Or.inr (take_of_length_le ?_)
    rw [length_append, length_singleton]
    omega

def Op.rebuilds (id : Digest) : Op Digest → Bool
  | .removePartial other | .writePartial other _ => decide (other = id)
  | _ => false

theorem replay_rebuilds (queue : Queue Digest) (rebuilds : ∀ op ∈ ops, op.rebuilds id = true) :
    queue.replay ops = queue ∨ ∃ found, queue.replay ops
      = queue.receiving id fun entry => { entry with blobPartial := found } := by
  induction ops generalizing queue with
  | nil => exact Or.inl rfl
  | cons op rest known =>
    obtain ⟨here, later⟩ := forall_mem_cons.mp rebuilds
    obtain ⟨bytes, first⟩ : ∃ bytes, queue.apply op
        = queue.receiving id fun entry => { entry with blobPartial := bytes } := by
      cases op with
      | removePartial other =>
        obtain rfl := of_decide_eq_true here
        exact ⟨none, rfl⟩
      | writePartial other bytes =>
        obtain rfl := of_decide_eq_true here
        exact ⟨some bytes, rfl⟩
      | _ => cases here
    right
    obtain same | ⟨found, same⟩ := known (queue.apply op) later
    · exact ⟨bytes, same.trans first⟩
    · refine ⟨found, same.trans ?_⟩
      rw [first, receiving_receiving]

theorem change_rebuilds {entry : Incoming Digest}
    (found : queue.incoming.get? id = some entry) (pending : entry.receipt = none)
    (rebuilds : ∀ op ∈ ops, op.rebuilds id = true) :
    Change hashes role queue settled (.commit id) (queue.replay (ops.take count)) := by
  obtain same | ⟨bytes, same⟩ := replay_rebuilds queue fun op mem =>
    rebuilds op (mem_of_mem_take mem)
  · rw [same]
    exact rest_self _ _
  · rw [same]
    exact Change.rebuilt _ found pending

theorem publish_change (hashes : Hashes Digest) (role : Option Side) (queue : Queue Digest)
    (kind : Kind) (key : String) (pinned copied : Bytes) (count : ℕ) :
    Change hashes role queue (Settled (queue.publish hashes kind key pinned copied).1 count)
      (.publish kind key pinned copied)
      (queue.replay ((queue.publish hashes kind key pinned copied).1.take count)) := by
  unfold Queue.publish
  simp only
  split
  case h_1 => exact change_nil _ _ _
  case h_2 valid =>
    split
    case h_1 =>
      split_ifs
      all_goals exact change_nil _ _ _
    case h_2 fresh =>
      split
      case h_1 => exact change_nil _ _ _
      case h_2 room =>
        split_ifs with pins there
        · exact change_prepares _ _ _ (by simp [Op.prepares])
        · rw [Bool.not_eq_true, Option.isSome_eq_false_iff, Option.isNone_iff_eq_none] at there
          obtain part | all := take_append_single ([.makeTemporary, .writeBlob [], .writeBlob copied] ++
            [.writeManifest .torn, .writeManifest (.whole (manifestOf hashes kind key pinned))])
            (.publishEntry (manifestOf hashes kind key pinned).id) count
          · rw [part]
            exact change_prepares _ _ _ (by simp [Op.prepares])
          · rw [all]
            exact Change.published _ valid
              (fun entry mem => by simpa using find?_eq_none.mp fresh entry mem)
              room pins there
        · exact change_prepares _ _ _ (by simp [Op.prepares])

theorem start_change (hashes : Hashes Digest) (role : Option Side) (queue : Queue Digest)
    (manifest : Manifest Digest) (count : ℕ) :
    Change hashes role queue (Settled (queue.start hashes role manifest).1 count) (.start manifest)
      (queue.replay ((queue.start hashes role manifest).1.take count)) := by
  unfold Queue.start
  split
  case h_1 => exact change_nil _ _ _
  case h_2 valid =>
    split_ifs with fits conflict
    · exact change_nil _ _ _
    · split
      case h_1 absent =>
        split
        case h_1 => exact change_nil _ _ _
        case h_2 room =>
          obtain part | all := take_append_single
            [.makeTemporary, .writeManifest .torn, .writeManifest (.whole manifest)]
            (.receiveEntry manifest.id) count
          · rw [show [.makeTemporary, .writeManifest .torn, .writeManifest (.whole manifest),
              .receiveEntry manifest.id] = [.makeTemporary, .writeManifest .torn,
                .writeManifest (.whole manifest)] ++ [Op.receiveEntry manifest.id] from rfl, part]
            exact change_prepares _ _ _ (by simp [Op.prepares])
          · rw [show [.makeTemporary, .writeManifest .torn, .writeManifest (.whole manifest),
              .receiveEntry manifest.id] = [.makeTemporary, .writeManifest .torn,
                .writeManifest (.whole manifest)] ++ [Op.receiveEntry manifest.id] from rfl, all]
            refine Change.started _ valid fits (fun entry mem same => ?_) room absent
            by_contra differs
            exact conflict (any_eq_true.mpr ⟨entry, mem, by simp [same, differs]⟩)
      case h_2 =>
        split_ifs
        all_goals exact change_nil _ _ _
    · exact change_nil _ _ _

theorem receiveChunk_change (hashes : Hashes Digest) (role : Option Side) (queue : Queue Digest)
    (value : Chunk Digest) (cut count : ℕ) :
    Change hashes role queue (Settled (queue.receiveChunk hashes value cut).1 count) (.receiveChunk value)
      (queue.replay ((queue.receiveChunk hashes value cut).1.take count)) := by
  unfold Queue.receiveChunk
  split_ifs with long other
  · exact change_nil _ _ _
  · exact change_nil _ _ _
  · split
    case h_1 => exact change_nil _ _ _
    case h_2 entry found =>
      split
      case h_1 => exact change_nil _ _ _
      case h_2 valid =>
        simp only
        split_ifs with outside order
        · exact change_nil _ _ _
        · exact change_nil _ _ _
        · split
          case h_1 =>
            split_ifs
            all_goals exact change_nil _ _ _
          case h_2 free =>
            simp only [not_or, not_lt, not_le, ne_eq, not_not] at outside
            have named : 0 ≤ value.index := outside.1
            have inside : value.index * chunkBytes < entry.manifest.bytes := 
              sub_pos.mp outside.2.1
            have ordered : value.index = 0 ∨
                (entry.chunks.get? (value.index.toNat - 1)).isSome = true := by
              by_contra bad
              rw [not_or, Bool.not_eq_true, Option.isSome_eq_false_iff] at bad
              exact order bad
            rcases count with _ | _ | count
            · exact rest_self _ _
            · refine Change.stored _ found named inside ordered free ( take_prefix _ _) ?_
              intro settled
              cases settled _ rfl
            · have joined : queue.replay [.openChunk value.id value.index.toNat (value.data.take cut),
                  .fillChunk value.id value.index.toNat value.data]
                  = queue.receiving value.id fun entry =>
                      { entry with chunks := entry.chunks.push value.index.toNat value.data } := by
                show (queue.receiving value.id _).receiving value.id _ = _
                rw [receiving_receiving]
                simp only [push_push]
              have all : [Op.openChunk value.id value.index.toNat (value.data.take cut),
                  .fillChunk value.id value.index.toNat value.data].take (count + 1 + 1) = _ :=
                take_of_length_le (by simp)
              simp only [all, joined]
              exact Change.stored _ found named inside ordered free prefix_rfl fun _ => rfl

theorem acknowledge_change (hashes : Hashes Digest) (role : Option Side) (queue : Queue Digest)
    (receipt : Receipt Digest) (count : ℕ) :
    Change hashes role queue (Settled (queue.acknowledge hashes receipt).1 count) (.acknowledge receipt)
      (queue.replay ((queue.acknowledge hashes receipt).1.take count)) := by
  unfold Queue.acknowledge
  split
  case h_1 => exact change_nil _ _ _
  case h_2 entry found =>
    split
    case h_1 => exact change_nil _ _ _
    case h_2 valid =>
      split_ifs with other
      · exact change_nil _ _ _
      · rw [ne_eq, not_not] at other
        split
        case h_1 pending =>
          rcases count with _ | _ | count
          · exact rest_self _ _
          · refine Change.delivered .torn found pending other (Or.inl rfl) ?_
            intro settled
            cases settled _ rfl
          · have joined : queue.replay [.writeDelivery receipt.id .torn,
                .writeDelivery receipt.id (.whole receipt)]
                = { queue with
                    outgoing := queue.outgoing.modify receipt.id fun entry =>
                      { entry with delivery := some (.whole receipt) } } := by
              simp only [Queue.replay, foldl_cons, foldl_nil, Queue.apply, modify_modify]
            rw [take_of_length_le (by simp), joined]
            refine Change.delivered (.whole receipt) found pending other (Or.inr rfl) ?_
            intro _ wrong
            cases wrong
        case h_2 => exact change_nil _ _ _
        case h_3 =>
          split_ifs
          all_goals exact change_nil _ _ _

variable {content : Bytes}

theorem replay_rebuilt (rebuilds : ∀ op ∈ ops, op.rebuilds id = true) :
    queue.replay (ops ++ [.writePartial id content])
      = queue.receiving id fun entry => { entry with blobPartial := some content } := by
  rw [replay_append]
  obtain same | ⟨bytes, same⟩ := replay_rebuilds queue rebuilds
  · rw [same]
    rfl
  · rw [same]
    exact receiving_receiving

theorem replay_replace {receipt : Receipt Digest} (rebuilds : ∀ op ∈ ops, op.rebuilds id = true) :
    queue.replay (ops ++ [.writePartial id content] ++ replaceOps id receipt)
      = queue.receiving id fun entry =>
          { entry with blob := some content, blobPartial := none, receipt := some (.whole receipt) } := by
  rw [replay_append, replay_rebuilt rebuilds]
  show (((queue.receiving id _).receiving id _).receiving id _).receiving id _ = _
  rw [receiving_receiving, receiving_receiving, receiving_receiving]

/-- The blob is replaced after it was rebuilt, and then the receipt is written. -/
theorem replace_change {entry : Incoming Digest} {rebuild : List (Op Digest)}
    (found : queue.incoming.get? id = some entry) (pending : entry.receipt = none)
    (joined : entry.joined (range entry.manifest.count) = (content, true))
    (pins : Pins hashes entry.manifest content) (rebuilds : ∀ op ∈ rebuild, op.rebuilds id = true)
    (writes : ops = rebuild ++ [.writePartial id content] ++ replaceOps id (commitReceipt id
      entry.manifest)) :
    Change hashes role queue (Settled ops count) (.commit id) (queue.replay (ops.take count)) := by
  have last : (Op.writePartial id content).rebuilds id = true := decide_eq_true rfl
  have work : ∀ op ∈ rebuild ++ [.writePartial id content], op.rebuilds id = true := by
    intro op mem
    obtain before | here := mem_append.mp mem
    · exact rebuilds op before
    · rw [mem_singleton.mp here]
      exact last
  by_cases inside : count ≤ (rebuild ++ [Op.writePartial id content]).length
  · rw [writes, take_append_of_le_length inside]
    exact change_rebuilds _ _ found pending work
  -- The stop is behind the rename of the partial blob.
  · obtain ⟨extra, rfl⟩ := Nat.exists_eq_add_of_lt (not_le.mp inside)
    rw [Nat.add_assoc] at *
    have split : ops.take ((rebuild ++ [Op.writePartial id content]).length + (extra + 1))
        = rebuild ++ [.writePartial id content] ++
          (replaceOps id (commitReceipt id entry.manifest)).take (extra + 1) := by
      rw [writes, take_length_add_append]
    unfold Settled
    rw [split]
    rcases extra with _ | _ | extra
    · have done : queue.replay (rebuild ++ [.writePartial id content] ++ [.replaceBlob id])
          = queue.receiving id fun entry =>
              { entry with blob := some content, blobPartial := none } := by
        rw [replay_append, replay_rebuilt rebuilds]
        exact receiving_receiving
      simp only [replaceOps, zero_add, take_succ_cons, take_zero, done]
      exact Change.replaced found pending joined pins
    · have done : queue.replay (rebuild ++ [.writePartial id content] ++
          [.replaceBlob id, .writeReceipt id .torn])
          = queue.receiving id fun entry =>
              { entry with blob := some content, blobPartial := none, receipt := some .torn } := by
        rw [replay_append, replay_rebuilt rebuilds]
        show ((queue.receiving id _).receiving id _).receiving id _ = _
        rw [receiving_receiving, receiving_receiving]
      simp only [replaceOps, zero_add, take_succ_cons, take_zero, done]
      refine Change.committed .torn found pending joined pins (Or.inl rfl) fun settled => ?_
      cases settled (.writeReceipt id .torn) (by simp)
    · rw [take_of_length_le (by simp [replaceOps]), replay_replace rebuilds]
      refine Change.committed _ found pending joined pins (Or.inr rfl) fun _ wrong => ?_
      cases wrong

theorem clearOps_rebuilds (entry : Incoming Digest) (id : Digest) :
    ∀ op ∈ entry.clearOps id, op.rebuilds id = true := by
  intro op mem
  unfold Incoming.clearOps at mem
  split_ifs at mem
  all_goals
    simp only [singleton_append, nil_append, mem_cons, not_mem_nil, or_false] at mem
  · rcases mem with rfl | rfl
    all_goals exact decide_eq_true rfl
  · rw [mem]
    exact decide_eq_true rfl

theorem rebuild_rebuilds (entry : Incoming Digest) (id : Digest) (content : Bytes) :
    ∀ op ∈ entry.clearOps id ++ [.writePartial id content], op.rebuilds id = true := by
  intro op mem
  rw [mem_append, mem_singleton] at mem
  obtain before | rfl := mem
  · exact clearOps_rebuilds entry id op before
  · exact decide_eq_true rfl

theorem commit_change (hashes : Hashes Digest) (role : Option Side) (queue : Queue Digest)
    (id : Digest) (count : ℕ) :
    Change hashes role queue (Settled (queue.commit hashes id).1 count) (.commit id)
      (queue.replay ((queue.commit hashes id).1.take count)) := by
  unfold Queue.commit
  split
  case h_1 => exact change_nil _ _ _
  case h_2 entry found =>
    split
    case h_1 => exact change_nil _ _ _
    case h_2 valid =>
      simp only
      split
      case h_1 => exact change_nil _ _ _
      case h_2 =>
        split_ifs
        all_goals exact change_nil _ _ _
      case h_3 pending =>
        generalize joined : entry.joined (range entry.manifest.count) = result
        obtain ⟨content, complete⟩ := result
        cases complete with
        | false =>
          exact change_rebuilds _ _ found pending (rebuild_rebuilds entry id content)
        | true =>
          by_cases pins : Pins hashes entry.manifest content
          · rw [if_neg (not_not.mpr pins)]
            exact replace_change count found pending joined pins (clearOps_rebuilds entry id) rfl
          · rw [if_pos pins]
            exact change_rebuilds _ _ found pending (rebuild_rebuilds entry id content)

/-- **What a call makes of a queue**, wherever it is stopped. -/
theorem serve_change (queue : Queue Digest) (role : Option Side) (cut : ℕ) (call : Call Digest)
    (count : ℕ) :
    Change hashes role queue (Settled (queue.serve hashes role cut call).1 count) call
      (queue.replay ((queue.serve hashes role cut call).1.take count)) := by
  cases call with
  | publish kind key pinned copied => exact publish_change hashes role queue kind key pinned copied count
  | start manifest => exact start_change hashes role queue manifest count
  | receiveChunk value => exact receiveChunk_change hashes role queue value cut count
  | commit id => exact commit_change hashes role queue id count
  | acknowledge receipt => exact acknowledge_change hashes role queue receipt count
  | next =>
    have reads : (queue.next hashes).1 = [] := by
      unfold Queue.next
      simp only
      repeat' split
      all_goals rfl
    simp only [Queue.serve, Outcome.map, reads]
    exact change_nil _ _ _
  | chunk id index =>
    have reads : (queue.chunk hashes id index).1 = [] := by
      unfold Queue.chunk
      repeat' split
      all_goals rfl
    simp only [Queue.serve, Outcome.map, reads]
    exact change_nil _ _ _

end Changes

end TinyDSV41.Artifacts
