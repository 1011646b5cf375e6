/-
**The GPU relay dispatches each request at most once, over all starts and stops.**

The memory of a running relay and its files agree on every record, and a record is running exactly
while its generation is active; only an active generation that has not been dispatched can be. So an
identity whose record is not running is done for ever, and what a stop leaves running comes back as
uncertain.

* `handle_change` — everything an event can do.
* `Gpu.Sound`, `sound_step` — the invariant.
* `settled_step`, `orphan_step` — what becomes of a record that is not running, and of one that was
  running at a stop.
* `gpu_dispatches` — at most one dispatch, no dispatch after an early cancellation or a stop, and the
  bound on occupied requests at each admission.
-/

import TinyDSV41.Lib.Cells
import TinyDSV41.Relay.GpuRelay

namespace TinyDSV41.Relay

open List Lib AList RelayState System Record Storage
open Option (bind_eq_some_iff isSome_iff_exists map_eq_some_iff)
open Cells (lookup_insert_cases)

/-! ### Everything an event can do -/

/-- Everything that an event of a running relay can do. -/
inductive Change (relay : RelayState) (outcome : Outcome) : Prop
  | kept (writes : outcome.writes = []) (dispatched : outcome.dispatched = [])
      (journal : outcome.relay.journal = relay.journal)
      (members : ∀ id, id ∈ relay.active → id ∈ outcome.relay.active)
      (active : ∀ id after, outcome.relay.active.lookup id = some after →
        ∃ before, relay.active.lookup id = some before ∧ before.dispatched = after.dispatched)
  | admitted {id : Id} {record : Record} {generation : Generation} (fresh : id ∉ relay.journal)
      (named : record.id = id) (status : record.status = .running)
      (waits : generation.dispatched = false)
      (writes : outcome.writes = [⟨id, record⟩]) (dispatched : outcome.dispatched = [])
      (journal : outcome.relay.journal = relay.journal.insert id record)
      (active : outcome.relay.active = relay.active.insert id generation)
      (room : outcome.relay.occupied.card ≤ outcome.relay.settings.maxInflight)
  | buried {id : Id} {record : Record} (fresh : id ∉ relay.journal)
      (named : record.id = id) (status : record.status = .cancelled)
      (writes : outcome.writes = [⟨id, record⟩]) (dispatched : outcome.dispatched = [])
      (journal : outcome.relay.journal = relay.journal.insert id record)
      (active : outcome.relay.active = relay.active)
  | finished {id : Id} {record : Record} {status : Status}
      (found : relay.journal.lookup id = some record) (works : id ∈ relay.active)
      (ended : status ≠ .running)
      (writes : outcome.writes = [⟨id, { record with status := status }⟩])
      (dispatched : outcome.dispatched = [])
      (journal : outcome.relay.journal = relay.journal.insert id { record with status := status })
      (active : outcome.relay.active = relay.active.erase id)
  | acknowledged {id : Id} {record : Record} (found : relay.journal.lookup id = some record)
      (writes : outcome.writes = [⟨id, { record with deliveryAcknowledged := true }⟩])
      (dispatched : outcome.dispatched = [])
      (journal : outcome.relay.journal
        = relay.journal.insert id { record with deliveryAcknowledged := true })
      (active : outcome.relay.active = relay.active)
  | dispatched {id : Id} {generation : Generation}
      (found : relay.active.lookup id = some generation) (waits : generation.dispatched = false)
      (writes : outcome.writes = []) (dispatched : outcome.dispatched = [id])
      (journal : outcome.relay.journal = relay.journal)
      (active : outcome.relay.active = relay.active.insert id { generation with dispatched := true })

variable {status : Status} {record : Record}

section Handlers

variable {relay : RelayState} {outcome : Outcome} {id : Id}

theorem mem_occupied : id ∈ relay.occupied ↔
    (∃ record, relay.journal.lookup id = some record ∧ record.status.occupies = true) ∨
      id ∈ relay.completions := by
  unfold occupied
  simp only [Finset.mem_union, mem_toFinset, mem_map, mem_filter]
  constructor
  · rintro (⟨entry, ⟨mem, occupies⟩, rfl⟩ | retained)
    · exact Or.inl ⟨entry.2, mem_lookup_iff.mpr mem, occupies⟩
    · exact Or.inr retained
  · rintro (⟨record, found, occupies⟩ | retained)
    · exact Or.inl ⟨⟨id, record⟩, ⟨mem_lookup_iff.mp found, occupies⟩, rfl⟩
    · exact Or.inr retained

theorem room_of_admission (relay : RelayState) {after : RelayState}
    (journal : after.journal = relay.journal.insert id record)
    (completions : ∀ other, other ∈ after.completions → other = id ∨ other ∈ relay.completions)
    (room : relay.occupied.card < relay.settings.maxInflight) :
    after.occupied.card ≤ relay.settings.maxInflight := by
  have inside : after.occupied ⊆ insert id relay.occupied := by
    intro other mem
    rw [Finset.mem_insert]
    by_cases same : other = id
    · exact Or.inl same
    · refine Or.inr (mem_occupied.mpr ?_)
      rcases mem_occupied.mp mem with ⟨entry, found, occupies⟩ | retained
      · rw [journal, lookup_insert_ne same] at found
        exact Or.inl ⟨entry, found, occupies⟩
      · exact Or.inr ((completions other retained).resolve_left same)
  calc after.occupied.card ≤ (insert id relay.occupied).card := Finset.card_le_card inside
    _ ≤ relay.occupied.card + 1 := Finset.card_insert_le _ _
    _ ≤ relay.settings.maxInflight := room

section

variable {digest : String} {timeoutMs : Option ℚ} {now : ℚ} {isEcho : Bool} {origin : Origin}
  (done : relay.admitGeneration id digest timeoutMs now isEcho origin = .ok outcome)
include done

theorem admitGeneration_ok :
    ∃ record generation, id ∉ relay.journal ∧ relay.occupied.card < relay.settings.maxInflight ∧
      record.id = id ∧ record.status = .running ∧ generation.dispatched = false ∧
      outcome = ⟨[⟨id, record⟩], [], { relay with
        journal := relay.journal.insert id record
        active := relay.active.insert id generation }⟩ := by
  unfold admitGeneration at done
  dsimp only at done
  split at done
  · cases done
  · split_ifs at done with late known full tracked
    cases done
    exact ⟨_, _, known, not_le.mp full, rfl, rfl, rfl, rfl⟩

theorem admitGeneration_change : Change relay outcome := by
  obtain ⟨record, generation, fresh, room, named, status, waits, rfl⟩ := admitGeneration_ok done
  exact .admitted fresh named status waits rfl rfl rfl rfl
    (room_of_admission relay rfl (fun _ mem => Or.inr mem) room)

end

theorem finishGeneration_ok (done : relay.finishGeneration id status = .ok outcome) :
    ∃ record, relay.journal.lookup id = some record ∧ id ∈ relay.active ∧
      outcome = ⟨[⟨id, { record with status := status }⟩], [], { relay with
        journal := relay.journal.insert id { record with status := status }
        active := relay.active.erase id }⟩ := by
  unfold RelayState.finishGeneration at done
  split_ifs at done with works
  split at done
  · cases done
  · rename_i record found
    cases done
    exact ⟨record, found, works, rfl⟩

theorem finishGeneration_change (ended : status ≠ .running)
    (done : relay.finishGeneration id status = .ok outcome) : Change relay outcome := by
  obtain ⟨record, found, works, rfl⟩ := finishGeneration_ok done
  exact .finished found works ended rfl rfl rfl rfl

variable {generation : Generation}

theorem endWorker_change {answer : Answer} (ended : status ≠ .running)
    (done : relay.endWorker id generation status answer = .ok outcome) : Change relay outcome := by
  obtain ⟨after, finished, rest⟩ := bind_ok done
  obtain ⟨record, found, works, rfl⟩ := finishGeneration_ok finished
  cases origin : generation.origin <;> simp only [origin] at rest <;> cases rest <;>
    exact .finished found works ended rfl rfl rfl rfl

theorem worker_ok {dispatched : Bool} (done : relay.worker id dispatched = .ok generation) :
    relay.active.lookup id = some generation ∧ generation.dispatched = dispatched ∧
      (generation.origin = .submit true ∨ generation.origin = .generate) := by
  unfold worker at done
  split at done
  · cases done
  · rename_i found there
    split_ifs at done with works
    cases done
    exact ⟨there, works⟩

theorem conclude_ended (controlled stopped : Bool) (upstream : Upstream) :
    (conclude controlled stopped upstream).1 ≠ .running := by
  unfold conclude
  repeat' split
  all_goals simp

theorem change_of_update (after : Generation) (found : relay.active.lookup id = some generation)
    (same : generation.dispatched = after.dispatched) {later : RelayState}
    (journal : later.journal = relay.journal) (active : later.active = relay.active.insert id after) :
    Change relay ⟨[], [], later⟩ := by
  refine .kept rfl rfl journal (fun other mem => ?_) (fun other entry there => ?_)
  · rw [active, mem_insert]
    exact Or.inr mem
  · rw [active] at there
    rcases lookup_insert_cases there with ⟨rfl, rfl⟩ | ⟨-, there⟩
    · exact ⟨generation, found, same⟩
    · exact ⟨entry, there, rfl⟩

theorem change_of_same {later : RelayState} (journal : later.journal = relay.journal)
    (active : later.active = relay.active) : Change relay ⟨[], [], later⟩ :=
  .kept rfl rfl journal (fun _ mem => active ▸ mem) fun _ after found =>
    ⟨after, active ▸ found, rfl⟩

theorem cancelGeneration_change (done : relay.cancelGeneration id = .ok outcome) :
    Change relay outcome := by
  unfold cancelGeneration at done
  split at done
  · rename_i absent
    split_ifs at done
    cases done
    exact .buried (lookup_eq_none.mp absent) rfl rfl rfl rfl rfl rfl
  · split at done
    · cases done
      exact change_of_same rfl rfl
    · rename_i generation found
      cases done
      exact change_of_update { generation with cancel := true } found rfl rfl rfl

theorem acknowledgeDelivery_change (done : relay.acknowledgeDelivery id = .ok outcome) :
    Change relay outcome := by
  unfold acknowledgeDelivery at done
  split_ifs at done
  · cases done
    exact change_of_same rfl rfl
  · split at done
    · cases done
    · cases done
    · cases done
    · cases done
    · rename_i record _ found
      cases done
      exact .acknowledged found rfl rfl rfl rfl

theorem handle_change {Payload : Type} {rules : Rules Payload} {event : GpuEvent Payload}
    (done : relay.handle rules event = .ok outcome) : Change relay outcome := by
  cases event with
  | submit value now =>
    obtain ⟨id, -, rest⟩ := bind_ok done
    obtain ⟨admitted, accepted, same⟩ := bind_ok rest
    obtain ⟨record, generation, fresh, room, named, status, waits, rfl⟩ :=
      admitGeneration_ok accepted
    cases same
    refine .admitted fresh named status waits rfl rfl rfl rfl (room_of_admission relay rfl ?_ room)
    intro other mem
    exact (mem_insert _).mp mem
  | generate | echo =>
    obtain ⟨id, -, accepted⟩ := bind_ok done
    exact admitGeneration_change accepted
  | cancel text =>
    obtain ⟨id, -, accepted⟩ := bind_ok done
    exact cancelGeneration_change accepted
  | acknowledge text =>
    obtain ⟨id, -, accepted⟩ := bind_ok done
    exact acknowledgeDelivery_change accepted
  | start id succeeds =>
    simp only [handle] at done
    split at done
    · rename_i generation found
      split_ifs at done
      · cases done
        exact change_of_update { generation with origin := .submit true } found rfl rfl rfl
      · obtain ⟨after, finished, same⟩ := bind_ok done
        obtain ⟨record, found, works, rfl⟩ := finishGeneration_ok finished
        cases same
        exact .finished found works (by simp) rfl rfl rfl rfl
    · cases done
  | dispatch id now =>
    obtain ⟨generation, works, rest⟩ := bind_ok done
    obtain ⟨found, waits, -⟩ := worker_ok works
    split_ifs at rest
    cases rest
    exact .dispatched found waits rfl rfl rfl rfl
  | fail id caught =>
    obtain ⟨generation, -, ended⟩ := bind_ok done
    exact endWorker_change (by simp) ended
  | conclude id upstream now =>
    obtain ⟨generation, -, ended⟩ := bind_ok done
    exact endWorker_change (conclude_ended _ _ _) ended
  | report id =>
    simp only [handle] at done
    split at done
    · cases done
    · cases done
      exact change_of_same rfl rfl
  | endEcho id finished =>
    simp only [handle] at done
    split at done
    · cases done
    · split_ifs at done
      all_goals exact finishGeneration_change (by simp) done
  | stopping =>
    cases done
    exact change_of_same rfl rfl

end Handlers

/-! ### Files -/

section Files

variable {requests : Journal} {writes : List Write} {id : Id}

theorem lookup_replay (property : Record → Prop)
    (written : ∀ write ∈ writes, write.path = id → property write.record)
    (holds : ∃ record, requests.lookup id = some record ∧ property record) :
    ∃ record, (journalFiles.replay requests writes).lookup id = some record ∧ property record := by
  induction writes generalizing requests with
  | nil => exact holds
  | cons write rest known =>
    refine known (fun other mem => written other (mem_cons_of_mem _ mem)) ?_
    show ∃ record, (requests.insert write.path write.record).lookup id = some record ∧ _
    by_cases here : id = write.path
    · subst here
      rw [lookup_insert]
      exact ⟨write.record, rfl, written write mem_cons_self rfl⟩
    · rw [lookup_insert_ne here]
      exact holds

theorem lookup_replay_other (absent : ∀ write ∈ writes, write.path ≠ id) :
    (journalFiles.replay requests writes).lookup id = requests.lookup id := by
  induction writes generalizing requests with
  | nil => rfl
  | cons write rest known =>
    have here : id ≠ write.path := (absent write mem_cons_self).symm
    exact (known fun other mem => absent other (mem_cons_of_mem _ mem)).trans
      (lookup_insert_ne here)

theorem lookup_replay_written (some_ : ∃ write ∈ writes, write.path = id)
    (written : ∀ write ∈ writes, write.path = id → write.record = record) :
    (journalFiles.replay requests writes).lookup id = some record := by
  induction writes generalizing requests with
  | nil => simp at some_
  | cons write rest known =>
    have later : ∀ other ∈ rest, other.path = id → other.record = record :=
      fun other mem => written other (mem_cons_of_mem _ mem)
    by_cases again : ∃ other ∈ rest, other.path = id
    · exact known again later
    · push Not at again
      obtain ⟨other, mem, path⟩ := some_
      rcases mem_cons.mp mem with rfl | there
      · refine (lookup_replay_other again).trans ?_
        show (requests.insert other.path other.record).lookup id = some record
        rw [path, lookup_insert, written other mem_cons_self path]
      · exact absurd path (again other there)

theorem evolves_known {before after : Journal} (path : journalFiles.Evolves before after)
    (known : id ∈ before) : id ∈ after :=
  path.keeps (id ∈ ·) (fun _ _ _ mem => (mem_insert _).mpr (Or.inr mem)) known

/-- Every record is stored under its identity. -/
def Named (requests : Journal) : Prop :=
  ∀ id record, requests.lookup id = some record → record.id = id

theorem evolves_named {before after : Journal} (path : journalFiles.Evolves before after)
    (named : Named before) : Named after := by
  refine path.keeps Named (fun disk write legal holds other record found => ?_) named
  rcases lookup_insert_cases found with ⟨rfl, rfl⟩ | ⟨-, found⟩
  · exact legal.1
  · exact holds other record found

theorem legal_of_uncertain
    (marks : ∀ write ∈ writes, write.record.id = write.path ∧ write.record.status = .uncertain ∧
      ∀ record, requests.lookup write.path = some record →
        record.status = .running ∨ record.status = .uncertain) :
    journalFiles.Legal requests writes := by
  induction writes generalizing requests with
  | nil => trivial
  | cons write rest known =>
    obtain ⟨named, uncertain, found⟩ := marks write mem_cons_self
    refine ⟨⟨named, fun record there => ?_⟩, known fun other mem => ?_⟩
    · rw [uncertain]
      exact (found record there).imp id Eq.symm
    · obtain ⟨named', uncertain', found'⟩ := marks other (mem_cons_of_mem _ mem)
      refine ⟨named', uncertain', fun record there => ?_⟩
      rcases lookup_insert_cases there with ⟨-, rfl⟩ | ⟨-, there⟩
      · exact Or.inr uncertain
      · exact found' record there

end Files

/-! ### Recovery -/

section Recovery

variable {requests : Journal} {paths : List Id} {id : Id}

theorem restarted_status (record : Record) : record.restarted.status ≠ .running := by
  unfold restarted
  by_cases running : record.status = .running
  · simp [running]
  · simp [running]

theorem restarted_id (record : Record) : record.restarted.id = record.id := by
  unfold restarted
  split_ifs <;> rfl

variable (journal : Journal)

theorem recover_writes : ∀ write ∈ (recover requests paths journal).1, ∃ record,
      requests.lookup write.path = some record ∧ record.id = write.path ∧
        record.status = .running ∧ write.record = record.restarted := by
  induction paths generalizing journal with
  | nil => simp [recover]
  | cons path rest later =>
    intro write mem
    unfold recover at mem
    split at mem
    · exact later _ write mem
    · rename_i record found
      have here : ∀ write ∈ record.restartWrites, record.id = path → ∃ record,
          requests.lookup write.path = some record ∧ record.id = write.path ∧
            record.status = .running ∧ write.record = record.restarted := by
        intro write mem named
        unfold restartWrites at mem
        split_ifs at mem with running
        · obtain rfl := mem_singleton.mp mem
          subst named
          exact ⟨record, found, rfl, running, rfl⟩
        · cases mem
      split_ifs at mem with named full
      · cases mem
      · exact here write mem (not_not.mp named)
      · rcases mem_append.mp mem with now | rest
        · exact here write now (not_not.mp named)
        · exact later _ write rest

theorem recover_uncertain :
    ∀ write ∈ (recover requests paths journal).1, write.record.status = .uncertain := by
  intro write mem
  obtain ⟨record, -, -, running, same⟩ := recover_writes journal write mem
  rw [same]
  simp [restarted, running]

theorem recover_legal :
    journalFiles.Legal requests (recover requests paths journal).1 := by
  refine legal_of_uncertain fun write mem => ?_
  obtain ⟨record, found, named, running, same⟩ := recover_writes journal write mem
  refine ⟨?_, recover_uncertain journal write mem, fun other there => ?_⟩
  · rw [same, restarted_id, named]
  · rw [found] at there
    cases there
    exact Or.inl running

/-- The journal after a start that succeeds, and that it has written each running record. -/
theorem recover_journal {journal known : Journal}
    (done : (recover requests paths journal).2 = .ok known) :
    (∀ id ∉ paths, known.lookup id = journal.lookup id) ∧
    ∀ id ∈ paths, ∀ record, requests.lookup id = some record → known.lookup id = some record.restarted ∧
      (record.status = .running → ∃ write ∈ (recover requests paths journal).1, write.path = id) := by
  induction paths generalizing journal with
  | nil =>
    cases done
    exact ⟨fun _ _ => rfl, by simp⟩
  | cons path rest ih =>
    cases found : requests.lookup path with
    | none =>
      have skips : recover requests (path :: rest) journal = recover requests rest journal := by
        conv_lhs => unfold recover
        rw [found]
      rw [skips] at done ⊢
      obtain ⟨others, these⟩ := ih done
      refine ⟨fun id absent => others id fun mem => absent (mem_cons_of_mem _ mem),
        fun id mem record there => ?_⟩
      rcases mem_cons.mp mem with rfl | later
      · rw [found] at there
        cases there
      · exact these id later record there
    | some record =>
      by_cases named : record.id ≠ path
      · unfold recover at done
        simp [found, named] at done
      by_cases full : maxTracked < (journal.insert record.id record.restarted).keys.length
      · unfold recover at done
        simp only [found, if_neg named, if_pos full] at done
        cases done
      have reads : recover requests (path :: rest) journal = (record.restartWrites
              ++ (recover requests rest (journal.insert record.id record.restarted)).1,
            (recover requests rest (journal.insert record.id record.restarted)).2) := by
        conv_lhs => unfold recover
        simp only [found, if_neg named, if_neg full]
      obtain rfl : record.id = path := not_not.mp named
      rw [reads] at done ⊢
      obtain ⟨others, these⟩ := ih done
      refine ⟨fun id absent => ?_, fun id mem entry there => ?_⟩
      · rw [others id fun mem => absent (mem_cons_of_mem _ mem)]
        exact lookup_insert_ne fun same => absent (same ▸ mem_cons_self)
      · by_cases later : id ∈ rest
        · obtain ⟨same, written⟩ := these id later entry there
          refine ⟨same, fun running => ?_⟩
          obtain ⟨write, inside, path⟩ := written running
          exact ⟨write, mem_append_right _ inside, path⟩
        · obtain rfl : id = record.id := (mem_cons.mp mem).resolve_right later
          rw [found] at there
          cases there
          refine ⟨?_, fun running => ?_⟩
          · rw [others _ later, lookup_insert]
          · refine ⟨⟨record.id, record.restarted⟩, mem_append_left _ ?_, rfl⟩
            simp [restartWrites, running]

/-- After a start that succeeds the journal is what is on disk. -/
theorem recover_same {known : Journal} (listed : paths.Perm requests.keys)
    (done : (recover requests paths ∅).2 = .ok known) (id : Id) :
    known.lookup id = (requests.lookup id).map restarted ∧
      (journalFiles.replay requests (recover requests paths ∅).1).lookup id
        = (requests.lookup id).map restarted := by
  obtain ⟨others, these⟩ := recover_journal done
  have written := @recover_writes requests paths ∅
  cases found : requests.lookup id with
  | none =>
    have absent : id ∉ paths := fun mem =>
      lookup_eq_none.mp found (listed.mem_iff.mp mem)
    refine ⟨others id absent, (lookup_replay_other fun write mem path => ?_).trans found⟩
    obtain ⟨record, there, -⟩ := written write mem
    rw [path, found] at there
    cases there
  | some record =>
    have inside : id ∈ paths :=
      listed.mem_iff.mpr (Cells.mem_of_lookup found)
    obtain ⟨same, marks⟩ := these id inside record found
    refine ⟨same, ?_⟩
    by_cases running : record.status = .running
    · refine lookup_replay_written (marks running) fun write mem path => ?_
      obtain ⟨entry, there, -, -, same⟩ := written write mem
      rw [path, found] at there
      cases there
      exact same
    · have kept : record.restarted = record := if_neg running
      refine (lookup_replay_other fun write mem path => ?_).trans (by rw [found]; simp [kept])
      obtain ⟨entry, there, -, status, -⟩ := written write mem
      rw [path, found] at there
      cases there
      exact running status

end Recovery

/-! ### The invariant -/

/-- The memory of a running relay agrees with its files. -/
structure Consistent (requests : Journal) (dispatches : List Id) (relay : RelayState) : Prop where
  same : ∀ id, relay.journal.lookup id = requests.lookup id
  live : ∀ id, id ∈ relay.active ↔
    ∃ record, relay.journal.lookup id = some record ∧ record.status = .running
  fresh : ∀ id generation, relay.active.lookup id = some generation →
    generation.dispatched = false → id ∉ dispatches

/-- What holds at every point of a history. -/
structure Gpu.Sound (gpu : Gpu) : Prop where
  named : Named gpu.requests
  once : gpu.dispatches.Nodup
  known : ∀ id ∈ gpu.dispatches, id ∈ gpu.requests
  process : ∀ relay ∈ gpu.relay, Consistent gpu.requests gpu.dispatches relay

section Steps

variable {Payload : Type} {rules : Rules Payload} {gpu next : Gpu} {requests : Journal}
  {dispatches : List Id} {relay : RelayState} {outcome : Outcome} {id : Id}

section

variable (consistent : Consistent requests dispatches relay)
include consistent

theorem known_iff : id ∈ relay.journal ↔ id ∈ requests := by
  rw [← lookup_isSome, ← lookup_isSome, consistent.same]

theorem Consistent.idle (found : requests.lookup id = some record) (ended : record.status ≠ .running) :
    id ∉ relay.active := by
  intro works
  obtain ⟨entry, there, running⟩ := (consistent.live id).mp works
  rw [consistent.same, found] at there
  cases there
  exact ended running

theorem change_legal (named : Named requests) (change : Change relay outcome) :
    journalFiles.Legal requests outcome.writes := by
  have absent : ∀ id, id ∉ relay.journal → requests.lookup id = none := fun id fresh =>
    lookup_eq_none.mpr fun mem => fresh ((known_iff consistent).mpr mem)
  cases change with
  | kept writes | dispatched found waits writes =>
    rw [writes]
    exact legal_nil _
  | admitted fresh name status waits writes | buried fresh name status writes =>
    rw [writes]
    refine legal_single ⟨name, fun record found => ?_⟩
    rw [absent _ fresh] at found
    cases found
  | @finished id record status found works ended writes =>
    obtain ⟨entry, there, running⟩ := (consistent.live id).mp works
    rw [found] at there
    cases there
    rw [consistent.same] at found
    rw [writes]
    refine legal_single ⟨named id record found, fun other there => Or.inl ?_⟩
    rw [found] at there
    cases there
    exact running
  | @acknowledged id record found writes =>
    rw [consistent.same] at found
    rw [writes]
    refine legal_single ⟨named id record found, fun other there => Or.inr ?_⟩
    rw [found] at there
    cases there
    rfl

/-- An event keeps memory and files in agreement, and dispatches an identity that is not dispatched
yet. -/
theorem consistent_change (known : ∀ id ∈ dispatches, id ∈ requests) (change : Change relay outcome) :
    Consistent (journalFiles.replay requests outcome.writes) (dispatches ++ outcome.dispatched)
        outcome.relay ∧
      (∀ id ∈ outcome.dispatched, id ∉ dispatches ∧ id ∈ requests) ∧
      outcome.dispatched.Nodup := by
  -- A single write changes one record in memory and on disk.
  have written : ∀ (id other : Id) (record : Record), (relay.journal.insert id record).lookup other
        = (journalFiles.replay requests [⟨id, record⟩]).lookup other := by
    intro id other record
    show _ = (requests.insert id record).lookup other
    by_cases here : other = id
    · rw [here, lookup_insert, lookup_insert]
    · rw [lookup_insert_ne here, lookup_insert_ne here, consistent.same]
  cases change with
  | kept writes dispatched journal members active =>
    rw [writes, dispatched, append_nil]
    refine ⟨⟨fun id => ?_, fun id => ?_, fun id after found waits => ?_⟩, by simp, by simp⟩
    · rw [journal, consistent.same]
      rfl
    · rw [journal, ← consistent.live id]
      refine ⟨fun works => ?_, members id⟩
      obtain ⟨after, found⟩ := isSome_iff_exists.mp (lookup_isSome.mpr works)
      obtain ⟨before, there, -⟩ := active id after found
      exact Cells.mem_of_lookup there
    · obtain ⟨before, there, same⟩ := active id after found
      exact consistent.fresh id before there (same.trans waits)
  | @admitted id record generation fresh named status waits writes dispatched journal active =>
    rw [writes, dispatched, append_nil]
    refine ⟨⟨fun other => ?_, fun other => ?_, fun other after found idle => ?_⟩, by simp, by simp⟩
    · rw [journal]
      exact written id other record
    · rw [journal, active, mem_insert]
      by_cases here : other = id
      · subst here
        rw [lookup_insert]
        exact ⟨fun _ => ⟨record, rfl, status⟩, fun _ => Or.inl rfl⟩
      · rw [lookup_insert_ne here, ← consistent.live other]
        exact ⟨fun either => either.resolve_left here, Or.inr⟩
    · rw [active] at found
      rcases lookup_insert_cases found with ⟨rfl, -⟩ | ⟨-, found⟩
      · exact fun mem => fresh ((known_iff consistent).mpr (known _ mem))
      · exact consistent.fresh other after found idle
  | @buried id record fresh named status writes dispatched journal active =>
    rw [writes, dispatched, append_nil]
    refine ⟨⟨fun other => ?_, fun other => ?_, ?_⟩, by simp, by simp⟩
    · rw [journal]
      exact written id other record
    · rw [journal, active]
      by_cases here : other = id
      · subst here
        rw [lookup_insert]
        constructor
        · intro works
          obtain ⟨entry, found, -⟩ := (consistent.live other).mp works
          exact absurd (Cells.mem_of_lookup found) fresh
        · rintro ⟨entry, same, running⟩
          cases same
          rw [status] at running
          cases running
      · rw [lookup_insert_ne here]
        exact consistent.live other
    · rw [active]
      exact consistent.fresh
  | @finished id record status found works ended writes dispatched journal active =>
    rw [writes, dispatched, append_nil]
    refine ⟨⟨fun other => ?_, fun other => ?_, fun other after there waits => ?_⟩, by simp, by simp⟩
    · rw [journal]
      exact written id other _
    · rw [journal, active, mem_erase]
      by_cases here : other = id
      · subst here
        rw [lookup_insert]
        refine ⟨fun ⟨different, _⟩ => absurd rfl different, ?_⟩
        rintro ⟨entry, same, running⟩
        cases same
        exact absurd running ended
      · rw [lookup_insert_ne here, ← consistent.live other]
        exact ⟨fun ⟨_, mem⟩ => mem, fun mem => ⟨here, mem⟩⟩
    · rw [active] at there
      exact consistent.fresh other after (Cells.lookup_erase_cases there).2 waits
  | @acknowledged id record found writes dispatched journal active =>
    rw [writes, dispatched, append_nil]
    refine ⟨⟨fun other => ?_, fun other => ?_, ?_⟩, by simp, by simp⟩
    · rw [journal]
      exact written id other _
    · rw [journal, active, consistent.live other]
      by_cases here : other = id
      · subst here
        rw [lookup_insert, found]
        simp
      · rw [lookup_insert_ne here]
    · rw [active]
      exact consistent.fresh
  | @dispatched id generation found waits writes dispatched journal active =>
    have works : id ∈ relay.active := Cells.mem_of_lookup found
    have fresh := consistent.fresh id generation found waits
    rw [writes, dispatched]
    refine ⟨⟨fun other => ?_, fun other => ?_, fun other after there idle => ?_⟩, ?_, by simp⟩
    · rw [journal, consistent.same]
      rfl
    · rw [journal, active, mem_insert, ← consistent.live other]
      refine ⟨fun either => ?_, Or.inr⟩
      rcases either with rfl | mem
      · exact works
      · exact mem
    · rw [active] at there
      rcases lookup_insert_cases there with ⟨-, rfl⟩ | ⟨here, there⟩
      · cases idle
      · rw [mem_append, mem_singleton]
        rintro (before | now)
        · exact consistent.fresh other after there idle before
        · exact here now
    · intro other mem
      obtain rfl := mem_singleton.mp mem
      obtain ⟨record, there, -⟩ := (consistent.live other).mp works
      exact ⟨fresh, (known_iff consistent).mp (Cells.mem_of_lookup there)⟩

end

variable {process : Option RelayState}

/-- What a step writes is legal, and what it leaves behind is consistent. -/
theorem effect_sound (sound : gpu.Sound) {step : GpuStep Payload} {writes : List Write}
    {dispatched : List Id} (effect : gpu.effect rules step = some (writes, dispatched, process)) :
    journalFiles.Legal gpu.requests writes ∧
    (∀ relay ∈ process, Consistent (journalFiles.replay gpu.requests writes)
      (gpu.dispatches ++ dispatched) relay) ∧
    (∀ id ∈ dispatched, id ∉ gpu.dispatches ∧ id ∈ gpu.requests) ∧ dispatched.Nodup := by
  cases step with
  | boot settings paths now =>
    simp only [Gpu.effect] at effect
    split_ifs at effect with idle
    cases effect
    refine ⟨recover_legal ∅, fun relay started => ?_, by simp, by simp⟩
    obtain ⟨journal, done, rfl⟩ := map_eq_some_iff.mp started
    have recovered : (recover gpu.requests paths ∅).2 = .ok journal := ok_of_toOption done
    have same := recover_same idle.2 recovered
    refine ⟨fun id => (same id).1.trans (same id).2.symm, fun id => ?_, fun id _ found => ?_⟩
    · refine ⟨fun works => absurd works (notMem_empty id), ?_⟩
      rintro ⟨record, found, running⟩
      rw [(same id).1] at found
      obtain ⟨before, -, rfl⟩ := map_eq_some_iff.mp found
      exact absurd running (restarted_status before)
    · cases found
  | event event =>
    obtain ⟨relay, live, handled⟩ := bind_eq_some_iff.mp effect
    obtain ⟨outcome, done, same⟩ := map_eq_some_iff.mp handled
    cases same
    have change : Change relay outcome := handle_change (ok_of_toOption done)
    have consistent := sound.process relay live
    obtain ⟨after, fresh, one⟩ := consistent_change consistent sound.known change
    refine ⟨change_legal consistent sound.named change, fun next same => ?_, fresh, one⟩
    cases same
    exact after

variable {action : GpuAction Payload}

theorem sound_step (sound : gpu.Sound) (stepped : gpu.step rules action = some next) : next.Sound := by
  cases action with obtain ⟨⟨writes, dispatched, process⟩, effect, rfl⟩ := map_eq_some_iff.mp stepped
  | run step =>
    obtain ⟨legal, consistent, fresh, one⟩ := effect_sound sound effect
    have path := evolves_replay legal
    refine ⟨evolves_named path sound.named, ?_, fun id mem => ?_, consistent⟩
    · refine nodup_append.mpr ⟨sound.once, ?_, fun first here second there same => ?_⟩
      · exact one
      · exact (fresh second there).1 (same ▸ here)
    · rcases mem_append.mp mem with before | now
      · exact evolves_known path (sound.known id before)
      · exact evolves_known path (fresh id now).2
  | stop step count =>
    obtain ⟨legal, -, -, -⟩ := effect_sound sound effect
    have path := evolves_stopped legal count
    exact ⟨evolves_named path sound.named, sound.once,
      fun id mem => evolves_known path (sound.known id mem), nofun⟩

/-- A record that is not running is only written again as delivered, and its request is not dispatched. -/
theorem effect_settled (sound : gpu.Sound) {step : GpuStep Payload} {writes : List Write}
    {dispatched : List Id} (effect : gpu.effect rules step = some (writes, dispatched, process))
    (found : gpu.requests.lookup id = some record) (ended : record.status ≠ .running) :
    (∀ write ∈ writes, write.path = id → write.record = { record with deliveryAcknowledged := true }) ∧
      id ∉ dispatched := by
  cases step with
  | boot settings paths now =>
    simp only [Gpu.effect] at effect
    split_ifs at effect
    cases effect
    refine ⟨fun write mem path => ?_, not_mem_nil⟩
    obtain ⟨entry, there, -, running, -⟩ := recover_writes ∅ write mem
    rw [path, found] at there
    cases there
    exact absurd running ended
  | event event =>
    obtain ⟨relay, live, handled⟩ := bind_eq_some_iff.mp effect
    obtain ⟨outcome, done, same⟩ := map_eq_some_iff.mp handled
    cases same
    have consistent := sound.process relay live
    have idle := consistent.idle found ended
    have known : id ∈ relay.journal :=
      (known_iff consistent).mpr (Cells.mem_of_lookup found)
    have change : Change relay outcome := handle_change (ok_of_toOption done)
    cases change with rw [writes, dispatched]
    | kept writes dispatched =>
      simp
    | @admitted other entry _ fresh _ _ _ writes dispatched
    | @buried other entry fresh _ _ writes dispatched =>
      refine ⟨fun write mem path => ?_, not_mem_nil⟩
      obtain rfl := mem_singleton.mp mem
      obtain rfl : other = id := path
      exact absurd known fresh
    | @finished other entry status _ works _ writes dispatched =>
      refine ⟨fun write mem path => ?_, not_mem_nil⟩
      obtain rfl := mem_singleton.mp mem
      obtain rfl : other = id := path
      exact absurd works idle
    | @acknowledged other entry there writes dispatched =>
      refine ⟨fun write mem path => ?_, not_mem_nil⟩
      obtain rfl := mem_singleton.mp mem
      change other = id at path
      rw [path, consistent.same, found] at there
      cases there
      rfl
    | @dispatched other generation there _ writes dispatched =>
      refine ⟨by simp, fun mem => ?_⟩
      obtain rfl := mem_singleton.mp mem
      exact idle (Cells.mem_of_lookup there)

def Gpu.Settled (gpu : Gpu) (id : Id) (status : Status) : Prop :=
  status ≠ .running ∧ ∃ record, gpu.requests.lookup id = some record ∧ record.status = status

/-- The record of the request, perhaps marked as delivered since. -/
def Gpu.Final (gpu : Gpu) (id : Id) (record : Record) : Prop :=
  ∃ later, gpu.requests.lookup id = some later ∧
    (later = record ∨ later = { record with deliveryAcknowledged := true })

theorem final_step (sound : gpu.Sound) (ended : record.status ≠ .running) (final : gpu.Final id record)
    (stepped : gpu.step rules action = some next) :
    next.Final id record ∧ next.dispatches.count id = gpu.dispatches.count id := by
  obtain ⟨later, found, same⟩ := final
  have ended' : later.status ≠ .running := by
    rcases same with rfl | rfl <;> exact ended
  have kept : ∀ {written : Record}, written = { later with deliveryAcknowledged := true } →
      written = record ∨ written = { record with deliveryAcknowledged := true } := by
    rintro _ rfl
    rcases same with rfl | rfl <;> exact Or.inr rfl
  cases action with obtain ⟨⟨writes, dispatched, process⟩, effect, rfl⟩ := map_eq_some_iff.mp stepped
  | run step =>
    obtain ⟨written, absent⟩ := effect_settled sound effect found ended'
    refine ⟨lookup_replay _ (fun write mem path => kept (written write mem path)) ⟨later, found, same⟩, ?_⟩
    rw [count_append, count_eq_zero.mpr absent, Nat.add_zero]
  | stop step count =>
    obtain ⟨written, -⟩ := effect_settled sound effect found ended'
    exact ⟨lookup_replay _ (fun write mem path => kept (written write (mem_of_mem_take mem) path))
      ⟨later, found, same⟩, rfl⟩

theorem settled_step (sound : gpu.Sound) (settled : gpu.Settled id status)
    (stepped : gpu.step rules action = some next) :
    next.Settled id status ∧ next.dispatches.count id = gpu.dispatches.count id := by
  obtain ⟨ended, record, found, rfl⟩ := settled
  obtain ⟨⟨later, there, same⟩, count⟩ := final_step sound ended ⟨record, found, Or.inl rfl⟩ stepped
  exact ⟨⟨ended, later, there, by rcases same with rfl | rfl <;> rfl⟩, count⟩

/-- The request is uncertain, or it is running and there is no relay. -/
def Gpu.Orphan (gpu : Gpu) (id : Id) : Prop :=
  gpu.Settled id .uncertain ∨
    gpu.relay = none ∧ ∃ record, gpu.requests.lookup id = some record ∧ record.status = .running

/-- A start makes an orphan uncertain; until it has, it is running on disk. -/
theorem orphan_step (sound : gpu.Sound) (orphan : gpu.Orphan id)
    (stepped : gpu.step rules action = some next) :
    next.Orphan id ∧ next.dispatches.count id = gpu.dispatches.count id := by
  rcases orphan with settled | ⟨gone, record, found, running⟩
  · obtain ⟨after, same⟩ := settled_step sound settled stepped
    exact ⟨Or.inl after, same⟩
  have later := sound_step sound stepped
  -- Without a relay, a step is a start.
  have boots : ∀ {step : GpuStep Payload} {writes : List Write} {dispatched : List Id}
      {process : Option RelayState}, gpu.effect rules step = some (writes, dispatched, process) →
      (∀ write ∈ writes, write.record.status = .uncertain) ∧ dispatched = [] ∧
        ∀ relay ∈ process, relay.active = ∅ := by
    intro step writes dispatched process effect
    cases step with
    | boot settings paths now =>
      simp only [Gpu.effect] at effect
      split_ifs at effect
      cases effect
      refine ⟨recover_uncertain ∅, rfl, fun relay started => ?_⟩
      obtain ⟨journal, -, rfl⟩ := map_eq_some_iff.mp started
      rfl
    | event event => simp [Gpu.effect, gone] at effect
  have stays : ∀ {writes : List Write}, (∀ write ∈ writes, write.record.status = .uncertain) →
      ∃ record, (journalFiles.replay gpu.requests writes).lookup id = some record ∧
        (record.status = .uncertain ∨ record.status = .running) := fun uncertain =>
    lookup_replay (fun record => record.status = .uncertain ∨ record.status = .running)
      (fun write mem _ => Or.inl (uncertain write mem)) ⟨record, found, Or.inr running⟩
  cases action with obtain ⟨⟨writes, dispatched, process⟩, effect, rfl⟩ := map_eq_some_iff.mp stepped
  | run step =>
    obtain ⟨uncertain, none_, idle⟩ := boots effect
    obtain ⟨after, there, status⟩ := stays uncertain
    refine ⟨?_, by rw [none_, append_nil]⟩
    rcases status with marked | still
    · exact Or.inl ⟨by simp, after, there, marked⟩
    · cases process with
      | none => exact Or.inr ⟨rfl, after, there, still⟩
      | some relay =>
        have consistent := later.process relay rfl
        have works := (consistent.live id).mpr ⟨after, (consistent.same id).trans there, still⟩
        rw [idle relay rfl] at works
        exact absurd works (notMem_empty id)
  | stop step count =>
    obtain ⟨uncertain, -, -⟩ := boots effect
    obtain ⟨after, there, status⟩ :=
      stays fun write mem => uncertain write (mem_of_mem_take mem)
    refine ⟨?_, rfl⟩
    rcases status with marked | still
    · exact Or.inl ⟨by simp, after, there, marked⟩
    · exact Or.inr ⟨rfl, after, there, still⟩

end Steps

/-! ### Histories -/

section Histories

variable {Payload : Type} {rules : Rules Payload} {gpu later : Gpu} {id : Id}

theorem sound_run (reached : (gpuSystem rules).Reachable always gpu) : gpu.Sound := by
  refine reached.invariant Gpu.Sound ?_ fun _ _ _ _ stepped sound => sound_step sound stepped
  rintro start rfl
  refine ⟨fun id record found => ?_, nodup_nil, by simp, nofun⟩
  cases found

theorem keeps_leads (property : Gpu → Prop)
    (path : (gpuSystem rules).Leads always gpu later) (sound : gpu.Sound)
    (kept : ∀ {before after : Gpu} {action : GpuAction Payload}, before.Sound → property before →
      before.step rules action = some after →
      property after ∧ after.dispatches.count id = before.dispatches.count id)
    (holds : property gpu) :
    property later ∧ later.dispatches.count id = gpu.dispatches.count id := by
  have all := path.preserves (fun state => state.Sound ∧ property state ∧
    state.dispatches.count id = gpu.dispatches.count id)
    (fun before action after _ stepped ⟨sound, holds, same⟩ => by
      obtain ⟨next, count⟩ := kept sound holds stepped
      exact ⟨sound_step sound stepped, next, count.trans same⟩) ⟨sound, holds, rfl⟩
  exact all.2

/-- Over any further history of starts, stops and requests, the record of a request that has ended stays
on disk as it is, but for the mark of its delivery, every later relay has that record, and the request is
not dispatched again. -/
theorem ended_records (reached : (gpuSystem rules).Reachable always gpu)
    (path : (gpuSystem rules).Leads always gpu later) (found : gpu.requests.lookup id = some record)
    (ended : record.status ≠ .running) : ∃ after, later.requests.lookup id = some after ∧
      (after = record ∨ after = { record with deliveryAcknowledged := true }) ∧
      (∀ relay ∈ later.relay, relay.journal.lookup id = some after) ∧
      later.dispatches.count id = gpu.dispatches.count id := by
  obtain ⟨⟨after, there, same⟩, count⟩ := keeps_leads (·.Final id record) path (sound_run reached)
    (fun sound final stepped => final_step sound ended final stepped) ⟨record, found, Or.inl rfl⟩
  refine ⟨after, there, same, fun relay live => ?_, count⟩
  exact (((sound_run (reached.leads path)).process relay live).same id).trans there

end Histories

/-- Over any history of starts, stops and requests: each request is dispatched at most once; a request
that was cancelled before it arrived is never dispatched; a request that was running when the process
stopped is not dispatched again, and every later relay has it as uncertain and counts it as occupied;
and after each admission, the new request included, at most `maxInflight` requests are running,
uncertain or retained. -/
theorem gpu_dispatches {Payload : Type} (rules : Rules Payload) (gpu : Gpu)
    (reached : (gpuSystem rules).Reachable always gpu) :
    gpu.dispatches.Nodup ∧
    (∀ (relay : RelayState) (id : Id) (outcome : Outcome) (next later : Gpu),
      gpu.relay = some relay → id ∉ relay.journal →
      relay.handle rules (.cancel id.text) = .ok outcome →
      gpu.step rules (.run (.event (.cancel id.text))) = some next →
      (gpuSystem rules).Leads always next later → id ∉ later.dispatches) ∧
    (∀ relay ∈ gpu.relay, ∀ id ∈ relay.active, ∃ record,
      gpu.requests.lookup id = some record ∧ record.status = .running) ∧
    (∀ (id : Id) (record : Record) (later : Gpu),
      gpu.relay = none → gpu.requests.lookup id = some record → record.status = .running →
      (gpuSystem rules).Leads always gpu later →
      later.dispatches.count id = gpu.dispatches.count id ∧
      ∀ relay ∈ later.relay, id ∈ relay.occupied ∧ ∃ record,
        relay.journal.lookup id = some record ∧ record.status = .uncertain) ∧
    (∀ (relay after : RelayState) (event : GpuEvent Payload) (outcome : Outcome) (id : Id),
      gpu.relay = some relay → relay.handle rules event = .ok outcome → outcome.relay = after →
      id ∉ relay.active → id ∈ after.active →
      after.occupied.card ≤ after.settings.maxInflight) := by
  have sound := sound_run reached
  refine ⟨sound.once, ?_, ?_, ?_, ?_⟩
  · intro relay id outcome next later live fresh handled stepped path
    have consistent := sound.process relay live
    have absent := lookup_eq_none.mpr fresh
    obtain ⟨known, required, cancelled⟩ := bind_ok handled
    have same : known = id := by
      unfold requireId at required
      rw [dif_pos id.valid] at required
      cases required
      rfl
    subst same
    simp only [cancelGeneration, absent] at cancelled
    split_ifs at cancelled
    cases cancelled
    have undispatched : known ∉ gpu.dispatches := fun member =>
      fresh ((known_iff consistent).mpr (sound.known known member))
    have after := sound_step sound stepped
    simp only [Gpu.step, Gpu.effect, live, Option.bind_some, handled, Except.toOption,
      Option.map_some, Option.some.injEq, append_nil] at stepped
    subst stepped
    obtain ⟨-, count⟩ := keeps_leads (·.Settled known .cancelled) path after
      settled_step
      ⟨by simp, _, lookup_insert _, rfl⟩
    rw [← count_eq_zero, count]
    exact count_eq_zero.mpr undispatched
  · intro relay live id works
    have consistent := sound.process relay live
    obtain ⟨record, found, running⟩ := (consistent.live id).mp works
    exact ⟨record, (consistent.same id).symm.trans found, running⟩
  · intro id record later gone found running path
    obtain ⟨orphan, count⟩ := keeps_leads (·.Orphan id) path sound
      orphan_step
      (Or.inr ⟨gone, record, found, running⟩)
    refine ⟨count, fun relay live => ?_⟩
    have consistent := (sound_run (reached.leads path)).process relay live
    rcases orphan with ⟨-, after, there, uncertain⟩ | ⟨stopped, -⟩
    · have known : relay.journal.lookup id = some after := (consistent.same id).trans there
      exact ⟨mem_occupied.mpr (Or.inl ⟨after, known, by rw [uncertain]; rfl⟩), after, known, uncertain⟩
    · rw [stopped] at live
      cases live
  · rintro relay after event outcome id live handled rfl idle works
    cases handle_change handled with
    | kept _ _ _ _ active =>
      obtain ⟨generation, found⟩ := isSome_iff_exists.mp (lookup_isSome.mpr works)
      obtain ⟨before, there, -⟩ := active id generation found
      exact absurd (lookup_isSome.mp (by rw [there]; rfl)) idle
    | admitted _ _ _ _ _ _ _ _ room => exact room
    | buried _ _ _ _ _ _ active | acknowledged _ _ _ _ active => exact absurd (active ▸ works) idle
    | finished _ _ _ _ _ _ active =>
      rw [active] at works
      exact absurd (mem_erase.mp works).2 idle
    | dispatched found _ _ _ _ active =>
      rw [active] at works
      rcases (mem_insert _).mp works with rfl | before
      · exact absurd (lookup_isSome.mp (by rw [found]; rfl)) idle
      · exact absurd before idle

/-! ### A stop behind a dispatch -/

def openRules : Rules Unit where
  check _ := .ok ()
  sha256 _ := ""
  echoSha256 := ""

/-- A request is dispatched, and the process is stopped before it ends. -/
def interrupted : List (GpuAction Unit) :=
  [.run (.boot oneRequest [] 0), .run (.event (.submit ⟨sampleId.text, (), some 1000⟩ 1)),
    .run (.event (.start sampleId true)), .run (.event (.dispatch sampleId 1)),
    .stop (.event .stopping) 0]

/-- A request that is cancelled before it arrives, over a stop and a start. -/
theorem ended_records_cancelled : ∃ gpu later : Gpu, (gpuSystem openRules).Leads always gpu later ∧
    later.dispatches.count sampleId = gpu.dispatches.count sampleId ∧
      ∃ record, later.requests.lookup sampleId = some record ∧ record.status = .cancelled := by
  have executed : ((gpuSystem openRules).run always ⟨∅, none, 0, []⟩
      [.run (.boot oneRequest [] 0), .run (.event (.cancel sampleId.text))]).bind (fun gpu =>
        ((gpuSystem openRules).run always gpu [.stop (.event .stopping) 0, .run (.boot oneRequest [sampleId] 0)]).map
          fun _ => (gpu.requests.lookup sampleId).map (·.status)) = some (some .cancelled) := by
    decide +kernel
  obtain ⟨gpu, finish, rest⟩ := bind_eq_some_iff.mp executed
  obtain ⟨later, restarted, status⟩ := map_eq_some_iff.mp rest
  obtain ⟨record, found, cancelled⟩ := map_eq_some_iff.mp status
  have path := leads_of_run restarted
  obtain ⟨after, there, same, -, count⟩ :=
    ended_records (reachable_of_run rfl finish) path found (by rw [cancelled]; decide)
  exact ⟨gpu, later, path, count, after, there, by rcases same with rfl | rfl <;> exact cancelled⟩

theorem gpu_dispatches_interrupted : ∃ gpu later,
    (gpuSystem openRules).Reachable always gpu ∧ gpu.dispatches = [sampleId] ∧
      (gpuSystem openRules).Leads always gpu later ∧
      later.dispatches.count sampleId = gpu.dispatches.count sampleId ∧
      ∃ relay, later.relay = some relay ∧ sampleId ∈ relay.occupied := by
  have executed : ((gpuSystem openRules).run always ⟨∅, none, 0, []⟩ interrupted).bind
      (fun gpu => ((gpuSystem openRules).run always gpu
        [.run (.boot oneRequest [sampleId] 0)]).map fun later =>
          (gpu.dispatches, gpu.relay.isNone, (gpu.requests.lookup sampleId).map (·.status),
            later.relay.isSome)) = some ([sampleId], true, some .running, true) := by
    decide +kernel
  obtain ⟨gpu, finish, rest⟩ := bind_eq_some_iff.mp executed
  obtain ⟨later, restarted, same⟩ := map_eq_some_iff.mp rest
  simp only [Prod.mk.injEq] at same
  obtain ⟨dispatches, stopped, status, live⟩ := same
  obtain ⟨record, found, running⟩ := map_eq_some_iff.mp status
  obtain ⟨relay, runs⟩ := isSome_iff_exists.mp live
  have reached : (gpuSystem openRules).Reachable always gpu :=
    reachable_of_run rfl finish
  have path : (gpuSystem openRules).Leads always gpu later := leads_of_run restarted
  obtain ⟨-, -, -, again, -⟩ := gpu_dispatches openRules gpu reached
  obtain ⟨count, occupied⟩ :=
    again sampleId record later (Option.isNone_iff_eq_none.mp stopped) found running path
  exact ⟨gpu, later, reached, dispatches, path, count, relay, runs, (occupied relay runs).1⟩

end TinyDSV41.Relay
