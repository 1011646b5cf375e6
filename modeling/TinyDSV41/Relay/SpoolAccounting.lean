/-
**No job of the CPU relay is lost, handed out twice or finished twice.**

A legal operation moves a name from `inbox` to `inflight` or adds a result to a name in `inflight`, so
every submitted name is at one place, and a result stays. Each handler is shown to make legal
operations only, and to leave at most as many claimed jobs without a result as the relay admits.

* `Spool.Orderly`, `evolves_orderly` — the invariant of the spool, at every point of a handler.
* `unfinishedClaims_ensures`, `claim_ensures`, `result_ensures`, `cancelClaim_ensures`,
  `recoverClaims_ensures` — one rule for each handler.
* `spool_accounts` — the places of the jobs, the claims and the results over all starts and stops.
-/

import TinyDSV41.Relay.Spool
import Mathlib.Data.List.Perm.Subperm

namespace TinyDSV41.Relay

open List Lib AList System SpoolOp Spool
open Option (isSome_iff_exists map_eq_some_iff)
open Script (ensures_bind ensures_done ensures_each ensures_ite ensures_lift ensures_perform ensures_raise ensures_read)

/-! ### The spool -/

/-- A queued job is not claimed, and a finished one is. -/
structure Spool.Orderly {Payload : Type} (spool : Spool Payload) : Prop where
  apart : ∀ name ∈ spool.inbox, name ∉ spool.inflight
  claimed : ∀ name ∈ spool.outbox, name ∈ spool.inflight

section Operations

variable {Payload : Type} {spool before after : Spool Payload} {op : SpoolOp} {name : String}

theorem apply_cases (legal : spool.Legal op) :
    (∃ name file, op = .move name ∧ name ∉ spool.inflight ∧ spool.inbox.lookup name = some file ∧
      spool.apply op = { spool with
        inbox := spool.inbox.erase name
        inflight := spool.inflight.insert name file }) ∨
    ∃ name result, op = .finish name result ∧ name ∈ spool.inflight ∧ name ∉ spool.outbox ∧
      spool.apply op = { spool with outbox := spool.outbox.insert name result } := by
  cases op with
  | move name =>
    obtain ⟨file, found⟩ := isSome_iff_exists.mp (lookup_isSome.mpr legal.1)
    refine Or.inl ⟨name, file, rfl, legal.2, found, ?_⟩
    simp [apply, found]
  | finish name result => exact Or.inr ⟨name, result, rfl, legal.1, legal.2, rfl⟩

theorem orderly_apply (legal : spool.Legal op) (orderly : spool.Orderly) : (spool.apply op).Orderly := by
  rcases apply_cases legal with ⟨name, file, -, free, found, same⟩ | ⟨name, result, -, works, -, same⟩
  · rw [same]
    refine ⟨fun other mem claimed => ?_, fun other mem => ?_⟩
    · obtain ⟨different, queued⟩ := mem_erase.mp mem
      rcases (mem_insert _).mp claimed with rfl | before
      · exact different rfl
      · exact orderly.apart other queued before
    · exact (mem_insert _).mpr (Or.inr (orderly.claimed other mem))
  · rw [same]
    refine ⟨orderly.apart, fun other mem => ?_⟩
    rcases (mem_insert _).mp mem with rfl | before
    · exact works
    · exact orderly.claimed other before

section

variable (path : (spoolFiles Payload).Evolves before after)
include path

theorem evolves_orderly (orderly : before.Orderly) :
    after.Orderly := path.keeps Spool.Orderly (fun _ _ => orderly_apply) orderly

theorem evolves_places :
    (name ∈ after.inbox ∨ name ∈ after.inflight) ↔ name ∈ before.inbox ∨ name ∈ before.inflight := by
  refine path.keeps (fun spool => (name ∈ spool.inbox ∨ name ∈ spool.inflight) ↔
    name ∈ before.inbox ∨ name ∈ before.inflight) (fun spool op legal same => ?_) Iff.rfl
  rw [← same]
  change (name ∈ (spool.apply op).inbox ∨ name ∈ (spool.apply op).inflight) ↔ _
  rcases apply_cases legal with ⟨other, file, -, free, found, moved⟩ | ⟨other, result, -, -, -, moved⟩
  · rw [moved]
    have queued : other ∈ spool.inbox := lookup_isSome.mp (by rw [found]; rfl)
    by_cases here : name = other
    · simp [here, queued]
    · simp [here]
  · rw [moved]

theorem evolves_inflight (claimed : name ∈ before.inflight) : name ∈ after.inflight := by
  refine path.keeps (name ∈ ·.inflight) (fun spool op legal holds => ?_) claimed
  change name ∈ (spool.apply op).inflight
  rcases apply_cases legal with ⟨other, file, -, -, -, moved⟩ | ⟨other, result, -, -, -, moved⟩
  · rw [moved]
    exact (mem_insert _).mpr (Or.inr holds)
  · rw [moved]
    exact holds

theorem evolves_result {result : JobResult} (found : before.outbox.lookup name = some result) :
    after.outbox.lookup name = some result := by
  refine path.keeps (·.outbox.lookup name = some result) (fun spool op legal holds => ?_) found
  change (spool.apply op).outbox.lookup name = some result
  rcases apply_cases legal with ⟨other, file, -, -, -, moved⟩ | ⟨other, entry, -, -, fresh, moved⟩
  · rw [moved]
    exact holds
  · rw [moved]
    refine (lookup_insert_ne fun same => fresh ?_).trans holds
    rw [← same]
    exact lookup_isSome.mp (by rw [holds]; rfl)

end

theorem written_replay {ops : List SpoolOp} {written : List String}
    (legal : (spoolFiles Payload).Legal spool ops) (once : written.Nodup)
    (same : ∀ name, name ∈ written ↔ name ∈ spool.outbox) :
    (written ++ ops.filterMap written?).Nodup ∧
      ∀ name, name ∈ written ++ ops.filterMap written? ↔
        name ∈ ((spoolFiles Payload).replay spool ops).outbox := by
  induction ops generalizing spool written with
  | nil =>
    rw [filterMap_nil, append_nil]
    exact ⟨once, same⟩
  | cons op rest known =>
    rcases apply_cases legal.1 with
      ⟨name, file, rfl, -, -, moved⟩ | ⟨name, result, rfl, -, fresh, moved⟩
    · refine known legal.2 once fun other => ?_
      change _ ↔ other ∈ (spool.apply (.move name)).outbox
      rw [moved, same]
    · have split : written ++ (finish name result :: rest).filterMap written?
          = (written ++ [name]) ++ rest.filterMap written? := by
        simp [written?]
      rw [split]
      refine known legal.2 ?_ fun other => ?_
      · refine nodup_append.mpr ⟨once, nodup_singleton name, fun first here second there => ?_⟩
        obtain rfl := mem_singleton.mp there
        rintro rfl
        exact fresh ((same first).mp here)
      · change _ ↔ other ∈ (spool.apply (.finish name result)).outbox
        rw [moved, mem_append, mem_singleton, same]
        exact Iff.trans or_comm (mem_insert _).symm

end Operations

/-! ### Claimed jobs without a result -/

section Waiting

variable {Payload : Type} {spool : Spool Payload} {name : String}

theorem mem_waiting : name ∈ spool.waiting ↔ name ∈ spool.inflight ∧ name ∉ spool.outbox := by
  unfold waiting
  rw [mem_filter, decide_eq_true_eq]
  exact Iff.rfl

theorem waiting_nodup (spool : Spool Payload) : spool.waiting.Nodup :=
  spool.inflight.nodupKeys.filter _

theorem waiting_finish (result : JobResult) (waits : name ∈ spool.waiting) :
    (spool.apply (.finish name result)).waiting.length + 1 ≤ spool.waiting.length := by
  have inside : name :: (spool.apply (.finish name result)).waiting ⊆ spool.waiting := by
    intro other mem
    rcases mem_cons.mp mem with rfl | later
    · exact waits
    · obtain ⟨claimed, open_⟩ := mem_waiting.mp later
      exact mem_waiting.mpr ⟨claimed, fun finished => open_ ((mem_insert _).mpr (Or.inr finished))⟩
  have fresh : name ∉ (spool.apply (.finish name result)).waiting := fun mem =>
    (mem_waiting.mp mem).2 ((mem_insert _).mpr (Or.inl rfl))
  exact (subperm_of_subset (nodup_cons.mpr ⟨fresh, waiting_nodup _⟩) inside).length_le

theorem waiting_move (spool : Spool Payload) (name : String) :
    (spool.apply (.move name)).waiting.length ≤ spool.waiting.length + 1 := by
  have inside : (spool.apply (.move name)).waiting ⊆ name :: spool.waiting := by
    intro other mem
    obtain ⟨claimed, open_⟩ := mem_waiting.mp mem
    by_cases here : other = name
    · exact here ▸ mem_cons_self
    · refine mem_cons_of_mem _ (mem_waiting.mpr ?_)
      cases found : spool.inbox.lookup name with simp only [apply, found] at claimed open_
      | none =>
        exact ⟨claimed, open_⟩
      | some file =>
        exact ⟨((mem_insert _).mp claimed).resolve_left here, open_⟩
  exact (subperm_of_subset (waiting_nodup _) inside).length_le

end Waiting

/-! ### The handlers -/

section Handlers

variable {Payload : Type} {rules : JobRules Payload}

/-- An orderly spool with room for so many claimed jobs without a result, where these names are not
queued. -/
structure Room (limit : ℕ) (taken : List String) (spool : Spool Payload) : Prop where
  orderly : spool.Orderly
  waiting : spool.waiting.length ≤ limit
  taken : ∀ name ∈ taken, name ∉ spool.inbox

variable {taken : List String}

theorem Room.more {limit limit' : ℕ}
    (room : Room limit taken spool) (more : limit ≤ limit') : Room limit' taken spool :=
  ⟨room.orderly, room.waiting.trans more, room.taken⟩

theorem room_finish {limit : ℕ} {name : String}
    (room : Room (limit + 1) taken spool) (waits : name ∈ spool.waiting) (result : JobResult) :
    Room limit taken (spool.apply (.finish name result)) :=
  ⟨orderly_apply (mem_waiting.mp waits) room.orderly, by
    have fewer := waiting_finish result waits
    have bound := room.waiting
    omega, room.taken⟩

theorem room_move {limit : ℕ} {name : String}
    (room : Room limit taken spool) (queued : name ∈ spool.inbox) :
    Room (limit + 1) taken (spool.apply (.move name)) ∧
      name ∈ (spool.apply (.move name)).waiting ∧ name ∉ taken := by
  have free := room.orderly.apart name queued
  obtain ⟨file, found⟩ := isSome_iff_exists.mp (lookup_isSome.mpr queued)
  have more := waiting_move spool name
  have bound := room.waiting
  have same : spool.apply (.move name) = { spool with
      inbox := spool.inbox.erase name
      inflight := spool.inflight.insert name file } := by simp [apply, found]
  refine ⟨⟨orderly_apply ⟨queued, free⟩ room.orderly, by omega, fun other mem there => ?_⟩,
    mem_waiting.mpr ?_, fun mem => room.taken name mem queued⟩
  · rw [same] at there
    exact room.taken other mem (mem_erase.mp there).2
  · rw [same]
    exact ⟨(mem_insert _).mpr (Or.inl rfl), fun finished => free (room.orderly.claimed name finished)⟩

/-- In the course of a handler: these names have results, and these files are claimed. -/
structure During (limit : ℕ) (taken finished : List String)
    (inflight : AList fun _ : String => File Payload) (spool : Spool Payload) : Prop
    extends Room limit taken spool where
  finished : ∀ name ∈ finished, name ∈ spool.outbox
  inflight : spool.inflight = inflight

variable {limit : ℕ} {taken finished : List String} {inflight : AList fun _ : String => File Payload}

/-- `failClaim` leaves a claimed job with a result. -/
theorem failClaim_ensures (limit : ℕ) (taken finished : List String)
    (inflight : AList fun _ : String => File Payload) {id : Id} {message : String} {fails : Spool Payload → Prop} :
    Script.Ensures (fun spool : Spool Payload => id.text ∈ spool.inflight ∧
        During (if id.text ∈ spool.outbox then limit else limit + 1) taken finished inflight spool)
      (failClaim id message)
      (fun _ spool => During limit taken (id.text :: finished) inflight spool) fails := by
  refine ensures_read fun spool ⟨claimed, during⟩ => ?_
  refine ensures_ite (fun ended => ?_) fun waits => ?_
  · rw [if_pos ended] at during
    refine ensures_done fun disk same => ?_
    subst same
    exact ⟨during.toRoom, forall_mem_cons.mpr ⟨ended, during.finished⟩, during.inflight⟩
  · rw [if_neg waits] at during
    refine ensures_perform (fun disk same => ?_) fun disk same => ?_
    · subst same
      exact ⟨claimed, waits⟩
    · subst same
      refine ⟨room_finish during.toRoom (mem_waiting.mpr ⟨claimed, waits⟩) _, fun name mem => ?_,
        during.inflight⟩
      rcases mem_cons.mp mem with rfl | before
      · exact (mem_insert _).mpr (Or.inl rfl)
      · exact (mem_insert _).mpr (Or.inr (during.finished name before))

/-- `_unfinished_claims` lists every claimed job that is left without a result. -/
theorem unfinishedClaims_ensures (limit : ℕ) (taken finished : List String)
    (inflight : AList fun _ : String => File Payload) (clock : ℕ → ℚ) (listing : List String) :
    Script.Ensures (fun spool => During limit taken finished inflight spool ∧
        ∀ name ∈ listing, name ∈ inflight)
      (unfinishedClaims rules clock listing)
      (fun active spool => During limit taken finished inflight spool ∧
        ∀ name ∈ listing, name ∈ spool.outbox ∨ name ∈ active.map (·.text))
      (Room limit taken) := by
  induction listing generalizing clock finished with
  | nil => exact ensures_done fun spool ⟨during, _⟩ => ⟨during, by simp⟩
  | cons name rest known =>
    -- A name that has a result by now keeps it while the others are read.
    have skips : Script.Ensures
        (fun spool : Spool Payload => During limit taken (name :: finished) inflight spool ∧
          ∀ other ∈ rest, other ∈ inflight)
        (unfinishedClaims rules (nextFile clock) rest)
        (fun active spool => During limit taken finished inflight spool ∧
          ∀ other ∈ name :: rest, other ∈ spool.outbox ∨ other ∈ active.map (·.text))
        (Room limit taken) := by
      refine (known (name :: finished) (nextFile clock)).weaken (fun _ => id)
        (fun active spool ⟨during, listed⟩ => ?_) fun _ => id
      obtain ⟨ended, before⟩ := forall_mem_cons.mp during.finished
      exact ⟨⟨during.toRoom, before, during.inflight⟩, forall_mem_cons.mpr ⟨Or.inl ended, listed⟩⟩
    refine ensures_read fun spool ⟨during, listed⟩ => ?_
    obtain ⟨claimed, others⟩ := forall_mem_cons.mp listed
    refine ensures_ite (fun ended => ?_) fun waits => ?_
    · refine skips.given fun disk same => ?_
      subst same
      exact ⟨⟨during.toRoom, forall_mem_cons.mpr ⟨ended, during.finished⟩, during.inflight⟩, others⟩
    · refine ensures_bind (fun value disk => disk = spool)
        (ensures_lift (fun _ same _ _ => same) fun _ same => same ▸ during.toRoom) ?_
      rintro ⟨job, deadline⟩
      refine ensures_ite (fun _ => ensures_raise fun _ same => same ▸ during.toRoom) fun named => ?_
      obtain rfl : name = job.id.text := not_not.mp named
      refine ensures_ite (fun expired => ?_) fun _ => ?_
      · refine ensures_bind (fun _ disk =>
          During limit taken (job.id.text :: finished) inflight disk) ?_ fun _ => ?_
        · refine (failClaim_ensures _ _ _ _).given fun disk same => ?_
          subst same
          rw [if_neg waits]
          exact ⟨during.inflight ▸ claimed, ⟨during.toRoom.more (Nat.le_succ _), during.finished,
            during.inflight⟩⟩
        · exact skips.given fun _ later => ⟨later, others⟩
      · refine ensures_bind (fun active disk =>
          During limit taken finished inflight disk ∧
            ∀ other ∈ rest, other ∈ disk.outbox ∨ other ∈ active.map (·.text)) ?_ fun active => ?_
        · refine (known _ (nextFile clock)).given fun disk same => ?_
          subst same
          exact ⟨during, others⟩
        · refine ensures_done fun disk ⟨later, these⟩ => ⟨later, ?_⟩
          refine forall_mem_cons.mpr ⟨Or.inr mem_cons_self, fun other mem => ?_⟩
          exact (these other mem).imp id (mem_cons_of_mem _)

/-- What a claim promises of the job it hands out: it is claimed now and was none of these names, and at
one reading of the clock it was not expired. -/
structure HandedOut (clock : ℕ → ℚ) (taken : List String) (job : Job Payload)
    (spool : Spool Payload) : Prop where
  claimed : job.id.text ∈ spool.inflight
  fresh : job.id.text ∉ taken
  unexpired : ∃ reading deadline, job.deadlineUnix = some deadline ∧ clock reading < deadline

theorem readJob_deadline {excessive : ℚ} {expired : Option ℚ} {file : Option (File Payload)}
    {job : Job Payload} {deadline : ℚ}
    (read : readJob rules excessive expired file = .ok (job, deadline)) :
    job.deadlineUnix = some deadline := by
  unfold readJob at read
  split at read
  · cases read
  · cases read
  · rename_i found
    split at read
    · cases read
    · rename_i there
      split_ifs at read
      cases checked : checkPayload rules found with
      | error message =>
        rw [checked] at read
        cases read
      | ok _ =>
        rw [checked] at read
        cases read
        exact there

/-- The loop of `claim` hands out a job that was queued, and takes at most one place. -/
theorem claimFrom_ensures (limit : ℕ) (clock : ℕ → ℚ) (paths : List String) :
    Script.Ensures (Room limit taken) (claimFrom rules clock paths)
      (fun handed spool => Room (limit + 1) taken spool ∧ ∀ job ∈ handed, HandedOut clock taken job spool)
      (Room (limit + 1) taken) := by
  induction paths generalizing clock with
  | nil =>
    exact ensures_done fun spool room =>
      ⟨room.more (Nat.le_succ _), nofun⟩
  | cons name rest known =>
    have later : Script.Ensures (Room limit taken) (claimFrom rules (nextFile clock) rest)
        (fun handed spool => Room (limit + 1) taken spool ∧
          ∀ job ∈ handed, HandedOut clock taken job spool)
        (Room (limit + 1) taken) := by
      refine (known (nextFile clock)).weaken (fun _ => id) (fun handed spool ⟨room, each⟩ => ?_)
        fun _ => id
      refine ⟨room, fun job mem => ?_⟩
      obtain ⟨claimed, fresh, reading, deadline, known, before⟩ := each job mem
      exact ⟨claimed, fresh, reading + 2, deadline, known, before⟩
    refine ensures_read fun spool room => ?_
    have fails : ∀ disk, disk = spool → Room (limit + 1) taken disk :=
      fun disk same => same ▸ room.more (Nat.le_succ _)
    refine ensures_ite (fun _ => ?_) fun queued => ?_
    · exact later.given fun disk same => same ▸ room
    · refine ensures_bind (fun value disk => disk = spool ∧ value.1.deadlineUnix = some value.2)
        (ensures_lift (fun _ same _ read => ⟨same, readJob_deadline read⟩) fails) ?_
      rintro ⟨job, deadline⟩
      refine ensures_ite (fun _ => ensures_raise fun disk given => fails disk given.1) fun named => ?_
      obtain rfl : name = job.id.text := not_not.mp named
      refine ensures_ite (fun _ => ensures_raise fun disk given => fails disk given.1) fun free => ?_
      obtain ⟨after, waits, fresh⟩ := room_move room (not_not.mp queued)
      obtain ⟨claimed, open_⟩ := mem_waiting.mp waits
      refine ensures_bind (fun _ disk => disk = spool.apply (.move job.id.text) ∧
        job.deadlineUnix = some deadline) (ensures_perform ?_ ?_) fun _ => ?_
      · rintro disk ⟨rfl, -⟩
        exact ⟨not_not.mp queued, fun mem => free (Or.inl mem)⟩
      · rintro disk ⟨rfl, known⟩
        exact ⟨rfl, known⟩
      refine ensures_ite (fun expired => ?_) fun alive => ?_
      · refine ensures_bind (fun _ disk => Room limit taken disk) ?_ fun _ => later
        refine (failClaim_ensures limit taken [] (spool.apply (.move job.id.text)).inflight).weaken ?_
          (fun _ _ during => during.toRoom) fun _ => id
        rintro disk ⟨rfl, -⟩
        rw [if_neg open_]
        exact ⟨claimed, after, by simp, rfl⟩
      · refine ensures_done ?_
        rintro disk ⟨rfl, known⟩
        refine ⟨after, fun handed same => ?_⟩
        cases same
        exact ⟨claimed, fresh, 1, deadline, known, not_le.mp alive⟩

variable (clock : ℕ → ℚ)

/-- `claim` keeps the bound, and hands out a job that was queued and not expired. -/
theorem claim_ensures (listing : List String) (requested : Option Id) :
    Script.Ensures (fun spool => Room limit taken spool ∧ listing.Perm spool.inflight.keys)
      (claim rules limit clock listing requested)
      (fun handed spool => Room limit taken spool ∧ ∀ job ∈ handed, HandedOut clock taken job spool)
      (Room limit taken) := by
  refine ensures_each fun start ⟨room, listed⟩ => ?_
  refine ensures_bind (fun active disk => During limit taken [] start.inflight disk ∧
    ∀ name ∈ listing, name ∈ disk.outbox ∨ name ∈ active.map (·.text)) ?_ fun active => ?_
  · refine (unfinishedClaims_ensures limit taken [] start.inflight clock listing).given ?_
    rintro disk rfl
    exact ⟨⟨room, by simp, rfl⟩, fun name => listed.mem_iff.mp⟩
  refine ensures_ite (fun _ => ?_) fun below => ?_
  · exact ensures_done fun disk ⟨during, _⟩ =>
      ⟨during.toRoom, nofun⟩
  refine ensures_read fun spool ⟨during, named⟩ => ?_
  -- Every claimed job without a result is among the active ones, so there is room for one more.
  have few : spool.waiting.length ≤ active.length := by
    have inside : spool.waiting ⊆ active.map (·.text) := by
      intro name mem
      obtain ⟨claimed, open_⟩ := mem_waiting.mp mem
      rw [during.inflight] at claimed
      exact (named name (listed.mem_iff.mpr claimed)).resolve_left open_
    have count := (subperm_of_subset (waiting_nodup spool) inside).length_le
    rwa [length_map] at count
  obtain ⟨less, rfl⟩ : ∃ less, limit = less + 1 := ⟨limit - 1, by omega⟩
  refine (claimFrom_ensures less _ _).weaken ?_ (fun handed disk ⟨after, each⟩ => ?_) fun _ => id
  · rintro disk rfl
    exact ⟨during.orderly, by omega, during.taken⟩
  · refine ⟨after, fun job mem => ?_⟩
    obtain ⟨claimed, fresh, reading, deadline, known, before⟩ := each job mem
    exact ⟨claimed, fresh, _, deadline, known, before⟩

/-- `result` adds at most one result. -/
theorem result_ensures (listing : List String) (value : JobResult) :
    Script.Ensures (fun spool => Room limit taken spool ∧ listing.Perm spool.inflight.keys)
      (result rules clock listing value) (fun _ => Room limit taken) (Room limit taken) := by
  refine ensures_each fun start ⟨room, listed⟩ => ?_
  refine ensures_ite (fun _ => ensures_raise fun disk same => same ▸ room) fun _ => ?_
  refine ensures_bind (fun _ disk => Room limit taken disk) ?_ fun _ => ?_
  · refine (unfinishedClaims_ensures limit taken [] start.inflight clock listing).weaken ?_
      (fun _ _ given => given.1.toRoom) fun _ => id
    rintro disk rfl
    exact ⟨⟨room, by simp, rfl⟩, fun name => listed.mem_iff.mp⟩
  refine ensures_read fun spool room => ?_
  have stays : ∀ disk, disk = spool → Room limit taken disk := fun disk same => same ▸ room
  refine ensures_bind (fun _ disk => disk = spool)
    (ensures_lift (fun _ same _ _ => same) stays) fun _ => ?_
  cases found : spool.outbox.lookup value.id.text with
  | some committed =>
    exact ensures_ite (fun _ => ensures_raise stays) fun _ =>
      ensures_done stays
  | none =>
    refine ensures_ite (fun _ => ensures_raise stays) fun claimed => ?_
    have waits := mem_waiting.mpr ⟨not_not.mp claimed, lookup_eq_none.mp found⟩
    refine ensures_bind (fun _ disk => Room limit taken disk) ?_ fun _ =>
      ensures_done fun _ => id
    refine ensures_perform ?_ ?_
    · rintro disk rfl
      exact mem_waiting.mp waits
    · rintro disk rfl
      exact room_finish (room.more (Nat.le_succ _)) waits value

/-- `cancel_claim` finishes the job that it moves. -/
theorem cancelClaim_ensures (requestId : Id) :
    Script.Ensures (Room limit taken) (cancelClaim rules clock requestId) (fun _ => Room limit taken)
      (Room limit taken) := by
  refine ensures_read fun spool room => ?_
  have stays : ∀ disk, disk = spool → Room limit taken disk := fun disk same => same ▸ room
  refine ensures_ite (fun claimed => ?_) fun _ => ?_
  · refine (failClaim_ensures limit taken [] spool.inflight).weaken ?_ (fun _ _ during => during.toRoom) fun _ => id
    rintro disk rfl
    refine ⟨claimed, room.more ?_, by simp, rfl⟩
    split_ifs <;> omega
  · refine ensures_ite (fun queued => ?_) fun _ => ensures_raise stays
    refine ensures_bind (fun _ disk => disk = spool) (ensures_lift (fun _ same _ _ => same) stays) ?_
    rintro ⟨job, -⟩
    refine ensures_ite (fun _ => ensures_raise stays) fun _ => ?_
    obtain ⟨after, waits, -⟩ := room_move room queued
    obtain ⟨claimed, open_⟩ := mem_waiting.mp waits
    refine ensures_bind (fun _ disk => disk = spool.apply (.move requestId.text))
      (ensures_perform ?_ ?_) fun _ => ?_
    · rintro disk rfl
      exact ⟨queued, room.orderly.apart _ queued⟩
    · rintro disk rfl
      rfl
    refine (failClaim_ensures limit taken [] (spool.apply (.move requestId.text)).inflight).weaken ?_
      (fun _ _ during => during.toRoom) fun _ => id
    rintro disk rfl
    rw [if_neg open_]
    exact ⟨claimed, after, by simp, rfl⟩

/-- A start leaves no claimed job without a result. -/
theorem recoverClaims_ensures (limit : ℕ) (taken finished : List String)
    (inflight : AList fun _ : String => File Payload) (clock : ℕ → ℚ) (listing : List String) :
    Script.Ensures (fun spool => During limit taken finished inflight spool ∧
        ∀ name ∈ listing, name ∈ inflight)
      (recoverClaims rules clock listing)
      (fun _ spool => During limit taken finished inflight spool ∧ ∀ name ∈ listing, name ∈ spool.outbox)
      (Room limit taken) := by
  induction listing generalizing clock finished with
  | nil => exact ensures_done fun spool ⟨during, _⟩ => ⟨during, by simp⟩
  | cons name rest known =>
    have later : Script.Ensures
        (fun spool : Spool Payload => During limit taken (name :: finished) inflight spool ∧
          ∀ other ∈ rest, other ∈ inflight)
        (recoverClaims rules (nextFile clock) rest)
        (fun _ spool => During limit taken finished inflight spool ∧
          ∀ other ∈ name :: rest, other ∈ spool.outbox)
        (Room limit taken) := by
      refine (known (name :: finished) (nextFile clock)).weaken (fun _ => id)
        (fun _ spool ⟨during, listed⟩ => ?_) fun _ => id
      obtain ⟨ended, before⟩ := forall_mem_cons.mp during.finished
      exact ⟨⟨during.toRoom, before, during.inflight⟩, forall_mem_cons.mpr ⟨ended, listed⟩⟩
    refine ensures_read fun spool ⟨during, listed⟩ => ?_
    obtain ⟨claimed, others⟩ := forall_mem_cons.mp listed
    refine ensures_ite (fun ended => ?_) fun waits => ?_
    · refine later.given fun disk same => ?_
      subst same
      exact ⟨⟨during.toRoom, forall_mem_cons.mpr ⟨ended, during.finished⟩, during.inflight⟩, others⟩
    · refine ensures_bind (fun value disk => disk = spool)
        (ensures_lift (fun _ same _ _ => same) fun _ same => same ▸ during.toRoom) ?_
      rintro ⟨job, -⟩
      refine ensures_ite (fun _ => ensures_raise fun _ same => same ▸ during.toRoom) fun named => ?_
      obtain rfl : name = job.id.text := not_not.mp named
      refine ensures_bind (fun _ disk =>
        During limit taken (job.id.text :: finished) inflight disk) ?_ fun _ => ?_
      · refine (failClaim_ensures _ _ _ _).given fun disk same => ?_
        subst same
        rw [if_neg waits]
        exact ⟨during.inflight ▸ claimed, ⟨during.toRoom.more (Nat.le_succ _), during.finished,
          during.inflight⟩⟩
      · exact later.given fun _ during => ⟨during, others⟩

theorem serve_ensures (taken : List String) (settings : RelaySettings) (clock : ℕ → ℚ) (listing : List String)
    (request : CpuRequest) :
    Script.Ensures (fun spool => Room settings.maxInflight taken spool ∧ listing.Perm spool.inflight.keys)
      (serve rules settings clock listing request)
      (fun handed spool => Room settings.maxInflight taken spool ∧
        ∀ job ∈ handed, HandedOut clock taken job spool)
      (Room settings.maxInflight taken) := by
  have nothing : ∀ {pre : Spool Payload → Prop}, (∀ spool, pre spool →
      Room settings.maxInflight taken spool) →
      Script.Ensures pre (pure none : SpoolScript Payload (Option (Job Payload)))
        (fun handed spool => Room settings.maxInflight taken spool ∧
          ∀ job ∈ handed, HandedOut clock taken job spool) (Room settings.maxInflight taken) :=
    fun room => ensures_done fun spool given => ⟨room spool given, nofun⟩
  cases request with
  | claim requested => exact claim_ensures clock listing requested
  | result value =>
    exact ensures_bind _ (result_ensures clock listing value) fun _ => nothing fun _ => id
  | cancel requestId =>
    exact ensures_bind _ ((cancelClaim_ensures clock requestId).given fun _ given => given.1)
      fun _ => nothing fun _ => id
  | status =>
    refine ensures_each fun start ⟨room, listed⟩ => ?_
    refine ensures_bind (fun _ => Room settings.maxInflight taken) ?_ fun _ => nothing fun _ => id
    refine (unfinishedClaims_ensures settings.maxInflight taken [] start.inflight clock
      listing).weaken ?_ (fun _ _ given => given.1.toRoom) fun _ => id
    rintro disk rfl
    exact ⟨⟨room, by simp, rfl⟩, fun name => listed.mem_iff.mp⟩

end Handlers

/-! ### Histories -/

section Histories

variable {Payload : Type} {rules : JobRules Payload} {cpu next : Cpu Payload}

/-- What holds of the spool and of what has happened, at every point of a history. -/
structure Cpu.Sound (cpu : Cpu Payload) : Prop where
  orderly : cpu.spool.Orderly
  placed : ∀ name, name ∈ cpu.submitted ↔ name ∈ cpu.spool.inbox ∨ name ∈ cpu.spool.inflight
  bounded : ∀ settings ∈ cpu.process, cpu.spool.waiting.length ≤ settings.maxInflight
  handedOnce : cpu.handed.Nodup
  handed : ∀ id ∈ cpu.handed, id.text ∈ cpu.spool.inflight
  writtenOnce : cpu.written.Nodup
  written : ∀ name, name ∈ cpu.written ↔ name ∈ cpu.spool.outbox

/-- The names that a claim cannot hand out: those with a result, and those handed out before. -/
def Cpu.taken (cpu : Cpu Payload) : List String := cpu.spool.outbox.keys ++ cpu.handed.map (·.text)

theorem taken_claimed (sound : cpu.Sound) : ∀ name ∈ cpu.taken, name ∈ cpu.spool.inflight := by
  intro name mem
  rcases mem_append.mp mem with finished | handed
  · exact sound.orderly.claimed name finished
  · obtain ⟨id, before, rfl⟩ := mem_map.mp handed
    exact sound.handed id before

/-- The operations of a step are legal, a process that it leaves is within its bound, a start leaves no
claimed job without a result, and what is handed out was not taken. -/
theorem cpu_effect (sound : cpu.Sound) {listing : List String} {clock : ℕ → ℚ} {step : CpuStep}
    {ops : List SpoolOp} {process : Option RelaySettings} {handed : Option (Job Payload)}
    (effect : cpu.effect rules listing clock step = some (ops, process, handed)) :
    (spoolFiles Payload).Legal cpu.spool ops ∧
    (∀ settings ∈ process,
      ((spoolFiles Payload).replay cpu.spool ops).waiting.length ≤ settings.maxInflight ∧
      (cpu.process = none → ((spoolFiles Payload).replay cpu.spool ops).waiting = [])) ∧
    ∀ job ∈ handed, HandedOut clock cpu.taken job ((spoolFiles Payload).replay cpu.spool ops) := by
  have apart : ∀ name ∈ cpu.taken, name ∉ cpu.spool.inbox := fun name mem queued =>
    sound.orderly.apart name queued (taken_claimed sound name mem)
  cases step with
  | boot settings =>
    simp only [Cpu.effect] at effect
    split_ifs at effect with idle
    cases effect
    have ensured : Script.Ensures _ (recoverClaims rules clock listing) _ _ :=
      recoverClaims_ensures cpu.spool.waiting.length cpu.taken [] cpu.spool.inflight clock listing
    obtain ⟨legal, ends⟩ := ensured cpu.spool ⟨⟨⟨sound.orderly, le_rfl, apart⟩, by simp, rfl⟩,
        fun name => idle.2.mem_iff.mp⟩
    refine ⟨legal, fun started same => ?_, nofun⟩
    obtain ⟨_, done, -⟩ := map_eq_some_iff.mp same
    rw [ok_of_toOption done] at ends
    obtain ⟨during, finished⟩ := ends
    have empty : ((spoolFiles Payload).replay cpu.spool
        ((recoverClaims rules clock listing).run cpu.spool).1).waiting = [] := by
      refine eq_nil_iff_forall_not_mem.mpr fun name mem => ?_
      obtain ⟨claimed, waits⟩ := mem_waiting.mp mem
      rw [during.inflight] at claimed
      exact waits (finished name (idle.2.mem_iff.mpr claimed))
    rw [empty]
    exact ⟨Nat.zero_le _, fun _ => rfl⟩
  | request request =>
    obtain ⟨settings, live, rest⟩ := Option.bind_eq_some_iff.mp effect
    split_ifs at rest with listed
    cases rest
    have room : Room settings.maxInflight cpu.taken cpu.spool :=
      ⟨sound.orderly, sound.bounded settings live, apart⟩
    have ensured : Script.Ensures _ (serve rules settings clock listing request) _ _ :=
      serve_ensures cpu.taken settings clock listing request
    obtain ⟨legal, ends⟩ := ensured cpu.spool ⟨room, listed⟩
    refine ⟨legal, fun same started => ?_, fun job mem => ?_⟩
    · cases started
      refine ⟨?_, fun gone => by rw [gone] at live; cases live⟩
      cases result : ((serve rules settings clock listing request).run cpu.spool).2 with
      | error message =>
        rw [result] at ends
        exact ends.waiting
      | ok value =>
        rw [result] at ends
        exact ends.1.waiting
    · cases result : ((serve rules settings clock listing request).run cpu.spool).2 with
      | error message =>
        rw [result] at mem
        cases mem
      | ok value =>
        rw [result] at ends mem
        exact ends.2 job mem

/-- Every step, and every stop, keeps the invariant. -/
theorem cpu_sound_step (sound : cpu.Sound) {action : CpuAction Payload}
    (stepped : cpu.step rules action = some next) : next.Sound := by
  have moves : ∀ {ops : List SpoolOp}, (spoolFiles Payload).Legal cpu.spool ops →
      ((spoolFiles Payload).replay cpu.spool ops).Orderly ∧
      (∀ name, name ∈ cpu.submitted ↔ name ∈ ((spoolFiles Payload).replay cpu.spool ops).inbox ∨
          name ∈ ((spoolFiles Payload).replay cpu.spool ops).inflight) ∧
      ∀ id ∈ cpu.handed, id.text ∈ ((spoolFiles Payload).replay cpu.spool ops).inflight := by
    intro ops legal
    have path := Storage.evolves_replay legal
    exact ⟨evolves_orderly path sound.orderly,
      fun name => (sound.placed name).trans (evolves_places path).symm,
      fun id mem => evolves_inflight path (sound.handed id mem)⟩
  cases action with
  | submit name file =>
    simp only [Cpu.step] at stepped
    split_ifs at stepped with known
    cases stepped
    have fresh : name ∉ cpu.spool.inflight := fun claimed =>
      known ((sound.placed name).mpr (Or.inr claimed))
    refine ⟨⟨fun other mem => ?_, sound.orderly.claimed⟩, fun other => ?_, sound.bounded,
      sound.handedOnce, sound.handed, sound.writtenOnce, sound.written⟩
    · rcases (mem_insert _).mp mem with rfl | before
      · exact fresh
      · exact sound.orderly.apart other before
    · rw [mem_cons, sound.placed, mem_insert, or_assoc]
  | run step listing clock =>
    obtain ⟨⟨ops, process, handed⟩, effect, rfl⟩ := map_eq_some_iff.mp stepped
    obtain ⟨legal, bounded, fresh⟩ := cpu_effect sound effect
    obtain ⟨orderly, placed, before⟩ := moves legal
    obtain ⟨once, written⟩ := written_replay legal sound.writtenOnce sound.written
    refine ⟨orderly, placed, fun settings live => (bounded settings live).1, ?_, ?_, once, written⟩
    · cases handed with
      | none => simpa using sound.handedOnce
      | some job =>
        refine nodup_append.mpr ⟨sound.handedOnce, nodup_singleton job.id, ?_⟩
        intro first here second there same
        obtain rfl := mem_singleton.mp there
        refine (fresh job rfl).fresh (mem_append_right _ ?_)
        exact mem_map.mpr ⟨first, here, congrArg Id.text same⟩
    · intro id mem
      rcases mem_append.mp mem with old | new
      · exact before id old
      · cases handed with
        | none => cases new
        | some job =>
          obtain rfl := mem_singleton.mp new
          exact (fresh job rfl).claimed
  | stop step listing clock operations =>
    obtain ⟨⟨ops, process, handed⟩, effect, rfl⟩ := map_eq_some_iff.mp stepped
    obtain ⟨legal, -, -⟩ := cpu_effect sound effect
    obtain ⟨orderly, placed, before⟩ := moves (legal.take operations)
    obtain ⟨once, written⟩ :=
      written_replay (legal.take operations) sound.writtenOnce sound.written
    exact ⟨orderly, placed, nofun, sound.handedOnce, before, once, written⟩

theorem cpu_sound_run (reached : (cpuSystem rules).Reachable always cpu) : cpu.Sound := by
  refine reached.invariant Cpu.Sound ?_ fun _ _ _ _ stepped sound => cpu_sound_step sound stepped
  rintro start rfl
  refine ⟨⟨?_, ?_⟩, fun name => ⟨?_, ?_⟩, ?_, nodup_nil, ?_, nodup_nil, fun name => ⟨?_, ?_⟩⟩
  · intro name mem
    cases mem
  · intro name mem
    cases mem
  · intro mem
    cases mem
  · rintro (mem | mem) <;> cases mem
  · intro settings gone
    cases gone
  · intro id mem
    cases mem
  all_goals
    intro mem
    cases mem

theorem result_leads {later : Cpu Payload} (path : (cpuSystem rules).Leads always cpu later)
    (sound : cpu.Sound) {name : String} {result : JobResult}
    (found : cpu.spool.outbox.lookup name = some result) :
    later.spool.outbox.lookup name = some result := by
  have both := path.preserves (fun state => state.Sound ∧ state.spool.outbox.lookup name = some result)
    (fun before action after _ stepped ⟨sound, found⟩ => by
      refine ⟨cpu_sound_step sound stepped, ?_⟩
      cases action with
      | submit name file =>
        simp only [cpuSystem, Cpu.step] at stepped
        split_ifs at stepped
        cases stepped
        exact found
      | run step listing clock =>
        obtain ⟨⟨ops, process, handed⟩, effect, rfl⟩ := map_eq_some_iff.mp stepped
        exact evolves_result (Storage.evolves_replay (cpu_effect sound effect).1) found
      | stop step listing clock operations =>
        obtain ⟨⟨ops, process, handed⟩, effect, rfl⟩ := map_eq_some_iff.mp stepped
        exact evolves_result (Storage.evolves_stopped (cpu_effect sound effect).1 operations) found)
    ⟨sound, found⟩
  exact both.2

/-- Over any history of starts, stops and requests in which each name is put into `inbox` at most once:
results are written once each and stay; a job is handed out once at most, and when it is it has no
result and is not expired; a running relay has at most `maxInflight` claimed jobs without a result, and
none after its start; and every submitted name is at exactly one of its three places. -/
theorem spool_accounts (rules : JobRules Payload) (cpu : Cpu Payload)
    (reached : (cpuSystem rules).Reachable always cpu) :
    (cpu.written.Nodup ∧ (∀ name, name ∈ cpu.written ↔ name ∈ cpu.spool.outbox) ∧
      ∀ (name : String) (result : JobResult) (later : Cpu Payload),
        cpu.spool.outbox.lookup name = some result →
        (cpuSystem rules).Leads always cpu later →
        later.spool.outbox.lookup name = some result) ∧
    (cpu.handed.Nodup ∧
      ∀ (settings : RelaySettings) (clock : ℕ → ℚ) (listing : List String) (request : CpuRequest)
        (job : Job Payload), cpu.process = some settings → listing.Perm cpu.spool.inflight.keys →
        ((serve rules settings clock listing request).run cpu.spool).2 = .ok (some job) →
        job.id.text ∉ cpu.spool.outbox ∧ job.id ∉ cpu.handed ∧
        ∃ reading deadline, job.deadlineUnix = some deadline ∧ clock reading < deadline) ∧
    (∀ settings ∈ cpu.process, cpu.spool.waiting.length ≤ settings.maxInflight) ∧
    (∀ name ∈ cpu.submitted,
      (name ∈ cpu.spool.inbox ∧ name ∉ cpu.spool.inflight ∧ name ∉ cpu.spool.outbox) ∨
      (name ∉ cpu.spool.inbox ∧ name ∈ cpu.spool.inflight ∧ name ∉ cpu.spool.outbox) ∨
      (name ∉ cpu.spool.inbox ∧ name ∈ cpu.spool.inflight ∧ name ∈ cpu.spool.outbox)) ∧
    (∀ (settings : RelaySettings) (listing : List String) (clock : ℕ → ℚ) (next : Cpu Payload),
      cpu.step rules (.run (.boot settings) listing clock) = some next → next.process.isSome →
      ∀ name ∈ next.spool.inflight, name ∈ next.spool.outbox) := by
  have sound := cpu_sound_run reached
  refine ⟨⟨sound.writtenOnce, sound.written, fun name result later found path =>
      result_leads path sound found⟩, ⟨sound.handedOnce, ?_⟩, sound.bounded, ?_, ?_⟩
  · intro settings clock listing request job live listed served
    have effect : cpu.effect rules listing clock (.request request)
        = some (((serve rules settings clock listing request).run cpu.spool).1, some settings,
          some job) := by
      simp [Cpu.effect, live, listed, served, Except.toOption]
    obtain ⟨-, -, handed⟩ := cpu_effect sound effect
    obtain ⟨-, fresh, unexpired⟩ := handed job rfl
    refine ⟨fun finished => fresh (mem_append_left _ finished), fun before => ?_, unexpired⟩
    exact fresh (mem_append_right _ (mem_map_of_mem before))
  · intro name member
    rcases (sound.placed name).mp member with queued | claimed
    · have free := sound.orderly.apart name queued
      exact Or.inl ⟨queued, free, fun finished => free (sound.orderly.claimed name finished)⟩
    · have gone : name ∉ cpu.spool.inbox := fun queued => sound.orderly.apart name queued claimed
      by_cases finished : name ∈ cpu.spool.outbox
      · exact Or.inr (Or.inr ⟨gone, claimed, finished⟩)
      · exact Or.inr (Or.inl ⟨gone, claimed, finished⟩)
  · intro settings listing clock next stepped started name claimed
    obtain ⟨⟨ops, process, handed⟩, effect, rfl⟩ := map_eq_some_iff.mp stepped
    obtain ⟨-, bounded, -⟩ := cpu_effect sound effect
    obtain ⟨running, live⟩ := isSome_iff_exists.mp started
    have idle : cpu.process = none := by
      simp only [Cpu.effect] at effect
      split_ifs at effect with idle
      exact Option.isNone_iff_eq_none.mp idle.1
    have empty := (bounded running live).2 idle
    by_contra waits
    have member := mem_waiting.mpr ⟨claimed, waits⟩
    rw [empty] at member
    cases member

end Histories

/-! ### A claim and a stop -/

def openJobs : JobRules Unit where
  check _ := .ok ()
  qualifies _ := true
  validateFailure _ _ _ := .error "Invalid failure receipt"

def sampleJob (id : Id) : Job Unit where
  id := id
  operation := "generate"
  payload := ()
  deadlineUnix := some 3600

/-- A start, a job and its claim, and a stop behind the first operation of its result. -/
def claimedOnce : List (CpuAction Unit) :=
  [.run (.boot oneRequest) [] fun _ => 0, .submit sampleId.text (.job (sampleJob sampleId)),
    .run (.request (.claim none)) [] fun _ => 1,
    .stop (.request (.result ⟨sampleId, .response "text"⟩)) [sampleId.text] (fun _ => 2) 1]

theorem spool_accounts_claimed : ∃ cpu : Cpu Unit,
    (cpuSystem openJobs).Reachable always cpu ∧ cpu.handed = [sampleId] ∧
      cpu.submitted = [sampleId.text] ∧ cpu.written.Nodup ∧
      ∀ later, (cpuSystem openJobs).Leads always cpu later →
        later.spool.outbox.lookup sampleId.text = some ⟨sampleId, .response "text"⟩ := by
  have executed : ((cpuSystem openJobs).run always ⟨⟨∅, ∅, ∅⟩, none, [], [], []⟩
      claimedOnce).map (fun cpu => (cpu.handed, cpu.submitted, cpu.spool.outbox.lookup sampleId.text))
      = some ([sampleId], [sampleId.text], some ⟨sampleId, .response "text"⟩) := by
    decide +kernel
  obtain ⟨cpu, finish, same⟩ := map_eq_some_iff.mp executed
  simp only [Prod.mk.injEq] at same
  obtain ⟨handed, submitted, written⟩ := same
  have reached : (cpuSystem openJobs).Reachable always cpu :=
    reachable_of_run rfl finish
  obtain ⟨⟨once, -, stays⟩, -⟩ := spool_accounts openJobs cpu reached
  exact ⟨cpu, reached, handed, submitted, once, fun later => stays _ _ later written⟩

end TinyDSV41.Relay
