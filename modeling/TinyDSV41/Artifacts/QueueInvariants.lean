/-
**What calls keep of an artifact queue.**

* `Queue.Sound` — manifests are valid and named by their ids, stored contents are pinned, a key has one
  received manifest, and the queue is within its bounds.
* `Change.sound` — every call keeps it, wherever it is stopped.
* `Queue.Grows` — directories, chunk files and receipts stay as they are.
* `serve_recorded` — a chunk, a commit or an acknowledgement that was answered is answered again.
-/

import TinyDSV41.Artifacts.Queue

namespace TinyDSV41.Artifacts

open List Lib OrderedTable Queue Option Manifest

variable {Digest : Type} [DecidableEq Digest] {hashes : Hashes Digest} {role : Option Side}
  {queue after : Queue Digest} {call : Call Digest} {settled : Prop}
  {id : Digest} {cut : ℕ}

/-! ### Bounds -/

def Queue.load (queue : Queue Digest) : ℤ := (queue.manifests.map fun manifest => manifest.bytes).sum

theorem forM_ok_iff {values : List (Manifest Digest)} : values.forM (validateManifest hashes) = .ok () ↔
      ∀ value ∈ values, validateManifest hashes value = .ok () := by
  induction values with
  | nil => simp [pure, Except.pure]
  | cons value rest known =>
    rw [forall_mem_cons, ← known]
    show (validateManifest hashes value >>= fun _ => rest.forM (validateManifest hashes)) = _ ↔ _
    cases validateManifest hashes value with
    | error | ok => simp [bind, Except.bind]

theorem bounded_ok_iff {extra : ℤ} : queue.bounded hashes extra = .ok () ↔
    (∀ manifest ∈ queue.manifests, validateManifest hashes manifest = .ok ()) ∧
      queue.manifests.length < maxArtifacts ∧ queue.load + extra ≤ maxQueueBytes := by
  rw [← forM_ok_iff]
  unfold bounded Queue.load
  cases queue.manifests.forM (validateManifest hashes) with
  | error error => simp [bind, Except.bind]
  | ok =>
    simp only [bind, Except.bind, true_and]
    split_ifs with full
    · refine iff_of_false (nofun) ?_
      omega
    · refine iff_of_true rfl ?_
      omega

/-! ### Soundness -/

/-- What holds of a directory under `outgoing`. -/
structure Outgoing.Sound (hashes : Hashes Digest) (id : Digest) (entry : Outgoing Digest) : Prop where
  valid : validateManifest hashes entry.manifest = .ok ()
  named : entry.manifest.id = id
  pins : Pins hashes entry.manifest entry.blob
  delivery : ∀ receipt, entry.delivery = some (.whole receipt) → receipt = receiptOf entry.manifest

/-- What holds of a directory under `incoming`. -/
structure Incoming.Sound (hashes : Hashes Digest) (id : Digest) (entry : Incoming Digest) : Prop where
  valid : validateManifest hashes entry.manifest = .ok ()
  named : entry.manifest.id = id
  pins : ∀ content, entry.blob = some content → Pins hashes entry.manifest content
  stored : entry.receipt.isSome = true → entry.blob.isSome = true
  receipt : ∀ receipt, entry.receipt = some (.whole receipt) → receipt = receiptOf entry.manifest

structure Queue.Sound (hashes : Hashes Digest) (queue : Queue Digest) : Prop where
  outgoing : ∀ id entry, queue.outgoing.get? id = some entry → entry.Sound hashes id
  incoming : ∀ id entry, queue.incoming.get? id = some entry → entry.Sound hashes id
  agreement : ∀ first second one two, queue.incoming.get? first = some one →
    queue.incoming.get? second = some two →
      one.manifest.isFor two.manifest.kind two.manifest.key = true → one.manifest = two.manifest
  entries : queue.manifests.length ≤ maxArtifacts
  load : queue.load ≤ maxQueueBytes

theorem sound_empty : (empty : Queue Digest).Sound hashes where
  outgoing id entry found := by cases found
  incoming id entry found := by cases found
  agreement first second one two found := by cases found
  entries := Nat.zero_le _
  load := Int.natCast_nonneg _

variable {change : Incoming Digest → Incoming Digest}

/-- A received directory is changed, and keeps its manifest. -/
theorem Queue.Sound.receiving (sound : queue.Sound hashes)
    (manifest : ∀ entry, (change entry).manifest = entry.manifest)
    (kept : ∀ entry, queue.incoming.get? id = some entry → entry.Sound hashes id → (change entry).Sound
      hashes id) : (queue.receiving id change).Sound hashes := by
  have manifests : (queue.receiving id change).manifests = queue.manifests := by
    unfold Queue.manifests Queue.receiving
    rw [map_values_modify manifest]
  have found : ∀ {other : Digest} {entry : Incoming Digest},
      (queue.receiving id change).incoming.get? other = some entry →
      ∃ before, queue.incoming.get? other = some before ∧ entry.manifest = before.manifest ∧
        entry.Sound hashes other := by
    intro other entry found
    obtain ⟨before, there, same⟩ := get?_modify_some.mp found
    refine ⟨before, there, ?_⟩
    split_ifs at same with here
    · subst here
      rw [same]
      exact ⟨manifest before, kept before there (sound.incoming _ _ there)⟩
    · rw [same]
      exact ⟨rfl, sound.incoming _ _ there⟩
  refine ⟨sound.outgoing, ?incoming, ?agreement, ?entries, ?load⟩
  case incoming =>
    intro other entry there
    obtain ⟨_, _, _, fine⟩ := found there
    exact fine
  case agreement =>
    intro first second one two one_there two_there same
    obtain ⟨one', there, one_same, -⟩ := found one_there
    obtain ⟨two', there', two_same, -⟩ := found two_there
    rw [one_same, two_same] at same ⊢
    exact sound.agreement _ _ _ _ there there' same
  case entries =>
    rw [manifests]
    exact sound.entries
  case load =>
    unfold Queue.load
    rw [manifests]
    exact sound.load

omit [DecidableEq Digest] in
theorem Manifest.isFor_iff {manifest : Manifest Digest} {kind : Kind} {key : String} :
    manifest.isFor kind key = true ↔ manifest.kind = kind ∧ manifest.key = key := decide_eq_true_iff

theorem Change.sound (change : Change hashes role queue settled call after)
    (sound : queue.Sound hashes) : after.Sound hashes := by
  cases change with
  | rest => exact ⟨sound.outgoing, sound.incoming, sound.agreement, sound.entries, sound.load⟩
  | @published kind key pinned copied temporaries valid fresh room pins absent =>
    obtain ⟨-, entries, load⟩ := bounded_ok_iff.mp room
    have manifests : queue.incoming.values.map Incoming.manifest ++
        (queue.outgoing.push (manifestOf hashes kind key pinned).id
          ⟨manifestOf hashes kind key pinned, copied, none⟩).values.map
          Outgoing.manifest = queue.manifests ++ [manifestOf hashes kind key pinned] := by
      rw [values_push absent, Queue.manifests, map_append, append_assoc]
      rfl
    refine ⟨?outgoing, sound.incoming, sound.agreement, ?entries, ?load⟩
    case outgoing =>
      intro id entry found
      rcases push_cases found with ⟨here, rfl⟩ | ⟨-, found⟩
      · refine ⟨valid, here.symm, pins, fun receipt wrong => ?_⟩
        cases wrong
      · exact sound.outgoing _ _ found
    case entries =>
      unfold Queue.manifests
      rw [manifests, length_append, length_singleton]
      exact entries
    case load =>
      unfold Queue.load Queue.manifests
      rw [manifests, map_append, sum_append, map_singleton, sum_singleton]
      exact load
  | @started manifest temporaries valid fits agrees room absent =>
    obtain ⟨-, entries, load⟩ := bounded_ok_iff.mp room
    have manifests : ((queue.incoming.push manifest.id
          ⟨manifest, ∅, none, none, none⟩).values.map Incoming.manifest ++
        queue.outgoing.values.map Outgoing.manifest).Perm (manifest :: queue.manifests) := by
      rw [values_push absent, Queue.manifests, map_append, append_assoc]
      exact perm_middle
    refine ⟨sound.outgoing, ?incoming, ?agreement, ?entries, ?load⟩
    case incoming =>
      intro id entry found
      obtain ⟨rfl, rfl⟩ | ⟨-, before⟩ := push_cases found
      · refine ⟨valid, rfl, fun content wrong => ?_, fun wrong => ?_, fun receipt wrong => ?_⟩
        all_goals cases wrong
      · exact sound.incoming _ _ before
    case agreement =>
      intro first second one two one_there two_there same
      rw [isFor_iff] at same
      obtain ⟨rfl, rfl⟩ | ⟨-, one_before⟩ := push_cases one_there
      · obtain ⟨rfl, rfl⟩ | ⟨-, two_before⟩ := push_cases two_there
        · rfl
        · exact (agrees two (mem_values.mpr ⟨_, two_before⟩)
            (isFor_iff.mpr ⟨same.1.symm, same.2.symm⟩)).symm
      · obtain ⟨rfl, rfl⟩ | ⟨-, two_before⟩ := push_cases two_there
        · exact agrees one (mem_values.mpr ⟨_, one_before⟩) (isFor_iff.mpr same)
        · exact sound.agreement _ _ _ _ one_before two_before (isFor_iff.mpr same)
    case entries =>
      unfold Queue.manifests
      rw [manifests.length_eq]
      exact entries
    case load =>
      unfold Queue.load Queue.manifests
      rw [(manifests.map _).sum_eq, map_cons, sum_cons, add_comm]
      exact load
  | stored written found named inside order free part whole | rebuilt =>
    exact sound.receiving (fun _ => rfl) fun entry _ fine =>
      ⟨fine.valid, fine.named, fine.pins, fine.stored, fine.receipt⟩
  | replaced found pending joined pins =>
    refine sound.receiving (fun _ => rfl) fun entry there fine => ?_
    obtain rfl := Option.mem_unique found there
    refine ⟨fine.valid, fine.named, fun content same => ?_, fun _ => rfl, fine.receipt⟩
    obtain rfl := some.inj same
    exact pins
  | committed file found pending joined pins known whole =>
    refine sound.receiving (fun _ => rfl) fun entry there fine => ?_
    obtain rfl := Option.mem_unique found there
    refine ⟨fine.valid, fine.named, fun content same => ?_, fun _ => rfl, fun receipt same => ?_⟩
    · obtain rfl := some.inj same
      exact pins
    · obtain rfl := some.inj same
      obtain wrong | same := known
      · cases wrong
      · cases same
        unfold commitReceipt receiptOf
        rw [fine.named]
  | @delivered receipt entry file found pending bound known whole =>
    have manifests : queue.incoming.values.map Incoming.manifest ++
        (queue.outgoing.modify receipt.id fun entry =>
          { entry with delivery := some file }).values.map Outgoing.manifest = queue.manifests := by
      congr 1
      exact map_values_modify fun _ => rfl
    refine ⟨?outgoing, sound.incoming, sound.agreement, ?entries, ?load⟩
    case outgoing =>
      intro id after there
      obtain ⟨before, earlier, same⟩ := get?_modify_some.mp there
      have fine := sound.outgoing _ _ earlier
      split_ifs at same with here
      · subst here
        obtain rfl := Option.mem_unique found earlier
        rw [same]
        refine ⟨fine.valid, fine.named, fine.pins, fun written whole => ?_⟩
        obtain torn | filled := known
        · rw [torn] at whole
          cases whole
        · rw [filled] at whole
          cases whole
          exact bound
      · rw [same]
        exact fine
    case entries =>
      unfold Queue.manifests
      rw [manifests]
      exact sound.entries
    case load =>
      have same : ∀ queue' : Queue Digest, queue'.manifests = queue.manifests →
          (queue'.manifests.map fun manifest => manifest.bytes).sum ≤ maxQueueBytes := by
        intro queue' same
        rw [same]
        exact sound.load
      exact same _ manifests

/-! ### Growth -/

/-- What stays of a directory under `incoming`. -/
structure Incoming.Grows (before after : Incoming Digest) : Prop where
  manifest : after.manifest = before.manifest
  chunks : ∀ index raw, before.chunks.get? index = some raw → after.chunks.get? index = some raw
  receipt : ∀ file, before.receipt = some file → after.receipt = some file ∧ after.blob = before.blob

/-- What stays of a directory under `outgoing`. -/
structure Outgoing.Grows (before after : Outgoing Digest) : Prop where
  manifest : after.manifest = before.manifest
  blob : after.blob = before.blob
  delivery : ∀ file, before.delivery = some file → after.delivery = some file

structure Queue.Grows (before after : Queue Digest) : Prop where
  incoming : ∀ id entry, before.incoming.get? id = some entry →
    ∃ later, after.incoming.get? id = some later ∧ entry.Grows later
  outgoing : ∀ id entry, before.outgoing.get? id = some entry →
    ∃ later, after.outgoing.get? id = some later ∧ entry.Grows later

omit [DecidableEq Digest] in
theorem Incoming.Grows.refl (entry : Incoming Digest) : entry.Grows entry :=
  ⟨rfl, fun _ _ found => found, fun _ found => ⟨found, rfl⟩⟩

omit [DecidableEq Digest] in
theorem Outgoing.Grows.refl (entry : Outgoing Digest) : entry.Grows entry :=
  ⟨rfl, rfl, fun _ found => found⟩

theorem Queue.Grows.refl (queue : Queue Digest) : queue.Grows queue :=
  ⟨fun _ entry found => ⟨entry, found, .refl entry⟩, fun _ entry found => ⟨entry, found, .refl entry⟩⟩

theorem Queue.Grows.trans {first second third : Queue Digest} (one : first.Grows second)
    (two : second.Grows third) : first.Grows third := by
  refine ⟨fun id entry found => ?_, fun id entry found => ?_⟩
  · obtain ⟨middle, there, grown⟩ := one.incoming id entry found
    obtain ⟨last, there', grown'⟩ := two.incoming id middle there
    refine ⟨last, there', grown'.manifest.trans grown.manifest,
      fun index raw known => grown'.chunks _ _ (grown.chunks _ _ known), fun file known => ?_⟩
    obtain ⟨known', blob⟩ := grown.receipt file known
    obtain ⟨known'', blob'⟩ := grown'.receipt file known'
    exact ⟨known'', blob'.trans blob⟩
  · obtain ⟨middle, there, grown⟩ := one.outgoing id entry found
    obtain ⟨last, there', grown'⟩ := two.outgoing id middle there
    exact ⟨last, there', grown'.manifest.trans grown.manifest, grown'.blob.trans grown.blob,
      fun file known => grown'.delivery _ (grown.delivery _ known)⟩

theorem grows_receiving
    (grown : ∀ entry, queue.incoming.get? id = some entry → entry.Grows (change entry)) :
    queue.Grows (queue.receiving id change) := by
  refine ⟨fun other entry found => ?_, fun _ entry found => ⟨entry, found, .refl entry⟩⟩
  refine ⟨_, get?_modify_some.mpr ⟨entry, found, rfl⟩, ?_⟩
  split_ifs with here
  · subst here
    exact grown entry found
  · exact .refl entry

theorem Change.grows (change : Change hashes role queue settled call after) : queue.Grows after := by
  cases change with
  | rest => exact ⟨(Queue.Grows.refl queue).incoming, (Queue.Grows.refl queue).outgoing⟩
  | published temporaries valid fresh room pins absent =>
    refine ⟨fun _ entry found => ⟨entry, found, .refl entry⟩, fun id entry found => ?_⟩
    refine ⟨entry, ?_, .refl entry⟩
    rw [get?_push_ne]
    · exact found
    · rintro rfl
      rw [absent] at found
      cases found
  | started temporaries valid fits agrees room absent =>
    refine ⟨fun id entry found => ?_, fun _ entry found => ⟨entry, found, .refl entry⟩⟩
    refine ⟨entry, ?_, .refl entry⟩
    rw [get?_push_ne]
    · exact found
    · rintro rfl
      rw [absent] at found
      cases found
  | stored written found named inside order free part whole =>
    refine grows_receiving fun entry there => ?_
    obtain rfl := Option.mem_unique found there
    refine ⟨rfl, fun index raw known => ?_, fun _ known => ⟨known, rfl⟩⟩
    rw [get?_push_ne]
    · exact known
    · rintro rfl
      rw [free] at known
      cases known
  | rebuilt blobPartial found pending =>
    exact grows_receiving fun entry _ => ⟨rfl, fun _ _ known => known, fun _ known => ⟨known, rfl⟩⟩
  | replaced found pending joined pins | committed file found pending joined pins known whole =>
    refine grows_receiving fun entry there => ?_
    obtain rfl := Option.mem_unique found there
    refine ⟨rfl, fun _ _ known => known, fun file known => ?_⟩
    rw [pending] at known
    cases known
  | @delivered receipt entry file found pending bound known whole =>
    refine ⟨fun _ entry found => ⟨entry, found, .refl entry⟩, fun id before there => ?_⟩
    refine ⟨_, get?_modify_some.mpr ⟨before, there, rfl⟩, ?_⟩
    split_ifs with here
    · subst here
      obtain rfl := Option.mem_unique found there
      refine ⟨rfl, rfl, fun other known => ?_⟩
      rw [pending] at known
      cases known
    · exact .refl before

/-! ### Calls that are repeated -/

/-- A directory under `incoming` takes a chunk. -/
structure Incoming.Takes (hashes : Hashes Digest) (entry : Incoming Digest) (value : Chunk Digest) :
    Prop where
  bounded : (value.data.length + 2) / 3 * 4 ≤ (chunkBytes + 2) / 3 * 4
  hash : hashes.content value.data = value.sha256
  valid : validateManifest hashes entry.manifest = .ok ()
  named : 0 ≤ value.index
  inside : 0 < entry.manifest.bytes - value.index * chunkBytes
  size : (value.data.length : ℤ) = min (chunkBytes : ℤ) (entry.manifest.bytes - value.index * chunkBytes)
  order : value.index ≠ 0 → (entry.chunks.get? (value.index.toNat - 1)).isSome = true
  same : ∀ raw, entry.chunks.get? value.index.toNat = some raw → raw = value.data

def storedOf (value : Chunk Digest) : Stored Digest := ⟨value.id, value.index, value.sha256, true⟩

variable {value : Chunk Digest} {entry : Incoming Digest}

theorem receiveChunk_takes (cut : ℕ) (found : queue.incoming.get? value.id = some entry)
    (takes : entry.Takes hashes value) :
    queue.receiveChunk hashes value cut
      = (if (entry.chunks.get? value.index.toNat).isSome = true then [] else
          [.openChunk value.id value.index.toNat (value.data.take cut),
            .fillChunk value.id value.index.toNat value.data], .ok (storedOf value)) := by
  have here : ¬ (value.index < 0 ∨ entry.manifest.bytes - value.index * chunkBytes ≤ 0 ∨
      (value.data.length : ℤ) ≠ min (chunkBytes : ℤ)
        (entry.manifest.bytes - value.index * chunkBytes)) := by
    rintro (negative | outside | size)
    · exact absurd takes.named (not_le.mpr negative)
    · exact absurd takes.inside (not_lt.mpr outside)
    · exact size takes.size
  have order : ¬ (value.index ≠ 0 ∧ (entry.chunks.get? (value.index.toNat - 1)).isNone = true) := by
    rintro ⟨later, missing⟩
    have there := takes.order later
    rw [isNone_iff_eq_none] at missing
    rw [missing] at there
    cases there
  unfold receiveChunk
  rw [if_neg (not_lt.mpr takes.bounded), if_neg (not_not.mpr takes.hash), found]
  simp only [takes.valid]
  rw [if_neg here, if_neg order]
  cases there : entry.chunks.get? value.index.toNat with
  | none => rfl
  | some raw =>
    simp only [takes.same raw there, ne_eq, not_true_eq_false, if_false]
    rfl

/-- A chunk that is answered was taken. -/
theorem takes_of_answered {stored : Stored Digest}
    (answered : (queue.receiveChunk hashes value cut).2 = .ok stored) :
    ∃ entry, queue.incoming.get? value.id = some entry ∧ entry.Takes hashes value ∧
      stored = storedOf value := by
  unfold receiveChunk at answered
  split_ifs at answered with long other
  · cases answered
  · cases answered
  split at answered
  case h_1 => cases answered
  case h_2 entry found =>
    split at answered
    case h_1 => cases answered
    case h_2 valid =>
      simp only at answered
      split_ifs at answered with outside order
      · cases answered
      · cases answered
      simp only [not_or, not_lt, not_le, ne_eq, not_not] at outside
      have ordered : value.index ≠ 0 → (entry.chunks.get? (value.index.toNat - 1)).isSome = true := by
        intro later
        by_contra missing
        rw [Bool.not_eq_true, isSome_eq_false_iff] at missing
        exact order ⟨later, missing⟩
      refine ⟨entry, found, ?_⟩
      split at answered
      case h_1 raw there =>
        split_ifs at answered with differs
        · cases answered
        · rw [ne_eq, not_not] at differs
          refine ⟨⟨not_lt.mp long, not_not.mp other, valid, outside.1, outside.2.1, outside.2.2,
            ordered, fun raw' there' => ?_⟩, (Except.ok.inj answered).symm⟩
          rw [there] at there'
          rw [← some.inj there', differs]
      case h_2 free =>
        refine ⟨⟨not_lt.mp long, not_not.mp other, valid, outside.1, outside.2.1, outside.2.2,
          ordered, fun raw there => ?_⟩, (Except.ok.inj answered).symm⟩
        rw [free] at there
        cases there

theorem Incoming.Takes.grows {later : Incoming Digest} (takes : entry.Takes hashes value)
    (grows : entry.Grows later) (there : (entry.chunks.get? value.index.toNat).isSome = true) :
    later.Takes hashes value := by
  obtain ⟨raw, found⟩ := isSome_iff_exists.mp there
  refine ⟨takes.bounded, takes.hash, ?_, takes.named, ?_, ?_, fun later' => ?_, fun raw' found' => ?_⟩
  · rw [grows.manifest]
    exact takes.valid
  · rw [grows.manifest]
    exact takes.inside
  · rw [grows.manifest]
    exact takes.size
  · obtain ⟨before, known⟩ := isSome_iff_exists.mp (takes.order later')
    rw [grows.chunks _ _ known]
    rfl
  · rw [grows.chunks _ _ found] at found'
    rw [← some.inj found', takes.same raw found]

/-- The files of a queue hold what a call answered. -/
def Recorded (hashes : Hashes Digest) (queue : Queue Digest) : Call Digest → Answer Digest → Prop
  | .receiveChunk value, .stored stored => ∃ entry, queue.incoming.get? value.id = some entry ∧
      entry.Takes hashes value ∧ (entry.chunks.get? value.index.toNat).isSome = true ∧
      stored = storedOf value
  | .commit id, .committed receipt => ∃ entry, queue.incoming.get? id = some entry ∧
      validateManifest hashes entry.manifest = .ok () ∧
      entry.receipt = some (.whole receipt) ∧ receipt = commitReceipt id entry.manifest
  | .acknowledge receipt, .acknowledged answer => ∃ entry,
      queue.outgoing.get? receipt.id = some entry ∧
      validateManifest hashes entry.manifest = .ok () ∧ receipt = receiptOf entry.manifest ∧
      entry.delivery = some (.whole receipt) ∧ answer = receipt
  | _, _ => False

variable {answer : Answer Digest}

theorem serve_recorded (recorded : Recorded hashes queue call answer) :
    queue.serve hashes role cut call = ([], .ok answer) := by
  cases call with
  | receiveChunk value =>
    cases answer with
    | stored stored =>
      obtain ⟨entry, found, takes, there, rfl⟩ := recorded
      simp only [serve, receiveChunk_takes cut found takes, if_pos there]
      rfl
    | _ => cases recorded
  | commit id =>
    cases answer with
    | committed receipt =>
      obtain ⟨entry, found, valid, there, same⟩ := recorded
      simp only [serve, commit, found, valid, there, ← same, ne_eq, not_true_eq_false,
        if_false]
      rfl
    | _ => cases recorded
  | acknowledge receipt =>
    cases answer with
    | acknowledged answer =>
      obtain ⟨entry, found, valid, bound, there, rfl⟩ := recorded
      simp only [serve, acknowledge, found, valid, ← bound, there, ne_eq,
        not_true_eq_false, if_false]
      rfl
    | _ => cases recorded
  | _ => cases answer <;> cases recorded

theorem Recorded.grows (recorded : Recorded hashes queue call answer) (grows : queue.Grows after) :
    Recorded hashes after call answer := by
  cases call with
  | receiveChunk value =>
    cases answer with
    | stored stored =>
      obtain ⟨entry, found, takes, there, same⟩ := recorded
      obtain ⟨later, found', grown⟩ := grows.incoming _ _ found
      refine ⟨later, found', takes.grows grown there, ?_, same⟩
      obtain ⟨raw, known⟩ := isSome_iff_exists.mp there
      rw [grown.chunks _ _ known]
      rfl
    | _ => cases recorded
  | commit id =>
    cases answer with
    | committed receipt =>
      obtain ⟨entry, found, valid, there, same⟩ := recorded
      obtain ⟨later, found', grown⟩ := grows.incoming _ _ found
      refine ⟨later, found', ?_, (grown.receipt _ there).1, ?_⟩
      · rw [grown.manifest]
        exact valid
      · rw [grown.manifest]
        exact same
    | _ => cases recorded
  | acknowledge receipt =>
    cases answer with
    | acknowledged answer =>
      obtain ⟨entry, found, valid, bound, there, same⟩ := recorded
      obtain ⟨later, found', grown⟩ := grows.outgoing _ _ found
      refine ⟨later, found', ?_, ?_, grown.delivery _ there, same⟩
      · rw [grown.manifest]
        exact valid
      · rw [grown.manifest]
        exact bound
    | _ => cases recorded
  | _ => cases answer <;> cases recorded

def Call.repeats : Call Digest → Bool
  | .receiveChunk _ | .commit _ | .acknowledge _ => true
  | _ => false

theorem receiveChunk_recorded {stored : Stored Digest}
    (answered : (queue.receiveChunk hashes value cut).2 = .ok stored) :
    Recorded hashes (queue.replay (queue.receiveChunk hashes value cut).1) (.receiveChunk value)
      (.stored stored) := by
  obtain ⟨entry, found, takes, rfl⟩ := takes_of_answered answered
  rw [receiveChunk_takes cut found takes]
  by_cases there : (entry.chunks.get? value.index.toNat).isSome = true
  · rw [if_pos there]
    exact ⟨entry, found, takes, there, rfl⟩
  · rw [if_neg there]
    refine ⟨{ entry with chunks := (entry.chunks.push value.index.toNat
      (value.data.take cut)).push value.index.toNat value.data }, ?_, ?_, ?_, rfl⟩
    · show ((queue.receiving value.id _).receiving value.id _).incoming.get? value.id = _
      rw [receiving_receiving]
      exact get?_modify_some.mpr ⟨entry, found, (if_pos rfl).symm⟩
    · refine ⟨takes.bounded, takes.hash, takes.valid, takes.named, takes.inside, takes.size,
        fun later => ?_, fun raw known => ?_⟩
      · rw [push_push, get?_push_ne]
        · exact takes.order later
        · have named := takes.named
          omega
      · rw [get?_push_self] at known
        exact (some.inj known).symm
    · rw [get?_push_self]
      rfl

theorem commit_joined {content : Bytes} (found : queue.incoming.get? id = some entry)
    (valid : validateManifest hashes entry.manifest = .ok ()) (pending : entry.receipt = none)
    (joined : entry.joined (range entry.manifest.count) = (content, true))
    (pins : Pins hashes entry.manifest content) :
    queue.commit hashes id = (entry.clearOps id ++ [.writePartial id content] ++
      replaceOps id (commitReceipt id entry.manifest), .ok (commitReceipt id entry.manifest)) := by
  unfold commit
  simp only [found, valid, pending, joined]
  rw [if_neg Bool.noConfusion, if_neg (not_not.mpr pins)]

variable {receipt : Receipt Digest}

/-- A commit that is answered was recorded, or its chunks join to the announced content. -/
theorem commit_answered (answered : (queue.commit hashes id).2 = .ok receipt) :
    ∃ entry, queue.incoming.get? id = some entry ∧ validateManifest hashes entry.manifest = .ok () ∧
      receipt = commitReceipt id entry.manifest ∧
      (entry.receipt = some (.whole receipt) ∧ (queue.commit hashes id).1 = [] ∨
        entry.receipt = none ∧ ∃ content, entry.joined (range entry.manifest.count) = (content, true) ∧
            Pins hashes entry.manifest content) := by
  cases found : queue.incoming.get? id with
  | none =>
    simp only [commit, found] at answered
    cases answered
  | some entry =>
    cases valid : validateManifest hashes entry.manifest with
    | error error =>
      simp only [commit, found, valid] at answered
      cases answered
    | ok =>
      refine ⟨entry, rfl, valid, ?_⟩
      rcases there : entry.receipt with _ | _ | written
      · generalize joined : entry.joined (range entry.manifest.count) = result
        obtain ⟨content, complete⟩ := result
        simp only [commit, found, valid, there, joined] at answered
        split_ifs at answered with missing pins
        rw [Bool.not_eq_false] at missing
        rw [missing]
        exact ⟨(Except.ok.inj answered).symm, Or.inr ⟨rfl, content, rfl, pins⟩⟩
      · simp only [commit, found, valid, there] at answered
        cases answered
      · simp only [commit, found, valid, there] at answered ⊢
        split_ifs at answered with differs
        · cases answered
        · rw [if_neg differs]
          rw [ne_eq, not_not] at differs
          obtain rfl := Except.ok.inj answered
          exact ⟨rfl, Or.inl ⟨by rw [differs], rfl⟩⟩

theorem commit_recorded (answered : (queue.commit hashes id).2 = .ok receipt) :
    Recorded hashes (queue.replay (queue.commit hashes id).1) (.commit id) (.committed receipt) := by
  obtain ⟨entry, found, valid, same, ⟨there, none⟩ | ⟨pending, content, joined, pins⟩⟩ :=
    commit_answered answered
  · rw [none]
    exact ⟨entry, found, valid, there, same⟩
  · rw [commit_joined found valid pending joined pins, replay_replace (clearOps_rebuilds entry id)]
    exact ⟨_, get?_modify_some.mpr ⟨entry, found, (if_pos rfl).symm⟩, valid,
      congrArg (some ∘ File.whole) same.symm, same⟩

theorem acknowledge_bound {entry : Outgoing Digest} (found : queue.outgoing.get? receipt.id = some entry)
    (valid : validateManifest hashes entry.manifest = .ok ())
    (bound : receipt = receiptOf entry.manifest)
    (readable : entry.delivery = none ∨ entry.delivery = some (.whole receipt)) :
    queue.acknowledge hashes receipt = (if entry.delivery.isSome = true then [] else
      [.writeDelivery receipt.id .torn, .writeDelivery receipt.id (.whole receipt)], .ok receipt) := by
  unfold acknowledge
  simp only [found, valid, ← bound, ne_eq, not_true_eq_false, if_false]
  obtain none | there := readable
  · simp only [none]
    rfl
  · simp only [there, not_true_eq_false, if_false]
    rfl

section

variable {answer : Receipt Digest} (answered : (queue.acknowledge hashes receipt).2 = .ok answer)
include answered

theorem acknowledge_answered : ∃ entry, queue.outgoing.get? receipt.id = some entry ∧
      validateManifest hashes entry.manifest = .ok () ∧ receipt = receiptOf entry.manifest ∧
      (entry.delivery = none ∨ entry.delivery = some (.whole receipt)) ∧ answer = receipt := by
  cases found : queue.outgoing.get? receipt.id with
  | none =>
    simp only [acknowledge, found] at answered
    cases answered
  | some entry =>
    cases valid : validateManifest hashes entry.manifest with
    | error error =>
      simp only [acknowledge, found, valid] at answered
      cases answered
    | ok =>
      refine ⟨entry, rfl, valid, ?_⟩
      simp only [acknowledge, found, valid] at answered
      split_ifs at answered with differs
      · cases answered
      rw [ne_eq, not_not] at differs
      refine ⟨differs, ?_⟩
      rcases there : entry.delivery with _ | _ | written
      all_goals simp only [there] at answered
      · exact ⟨Or.inl rfl, (Except.ok.inj answered).symm⟩
      · cases answered
      · split_ifs at answered with other
        · cases answered
        · rw [ne_eq, not_not] at other
          exact ⟨Or.inr (by rw [other]), (Except.ok.inj answered).symm⟩

theorem acknowledge_recorded :
    Recorded hashes (queue.replay (queue.acknowledge hashes receipt).1) (.acknowledge receipt)
      (.acknowledged answer) := by
  obtain ⟨entry, found, valid, bound, readable, same⟩ := acknowledge_answered answered
  rw [acknowledge_bound found valid bound readable]
  obtain none | there := readable
  · rw [if_neg (by rw [none]; exact Bool.noConfusion)]
    refine ⟨{ entry with delivery := some (.whole receipt) }, ?_, valid, bound, rfl, same⟩
    simp only [replay, foldl_cons, foldl_nil, apply, modify_modify]
    exact get?_modify_some.mpr ⟨entry, found, (if_pos rfl).symm⟩
  · rw [if_pos (by rw [there]; rfl)]
    exact ⟨entry, found, valid, bound, there, same⟩

end

/-- **What a call has answered is on the disk.** -/
theorem serve_records (repeats : call.repeats = true)
    (answered : (queue.serve hashes role cut call).2 = .ok answer) :
    Recorded hashes (queue.replay (queue.serve hashes role cut call).1) call answer := by
  cases call with
  | receiveChunk value =>
    cases stored : (queue.receiveChunk hashes value cut).2 with simp only [serve, Outcome.map, stored] at answered
    | error error =>
      cases answered
    | ok value =>
      cases answered
      exact receiveChunk_recorded stored
  | commit id =>
    cases committed : (queue.commit hashes id).2 with simp only [serve, Outcome.map, committed] at answered
    | error error =>
      cases answered
    | ok value =>
      cases answered
      exact commit_recorded committed
  | acknowledge receipt =>
    cases acknowledged : (queue.acknowledge hashes receipt).2 with simp only [serve, Outcome.map, acknowledged] at answered
    | error error =>
      cases answered
    | ok value =>
      cases answered
      exact acknowledge_recorded acknowledged
  | _ => cases repeats

end TinyDSV41.Artifacts
